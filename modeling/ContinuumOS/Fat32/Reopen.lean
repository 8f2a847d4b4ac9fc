import ContinuumOS.Fat32.Refinement

/-! # Opening a file, and opening it again

`fat32_open` on a well-formed file gives a descriptor of its bytes. After the
operations on it the same path is found at the same slot, which shows the new
start cluster and size, so that opening it again gives the new bytes. -/
namespace ContinuumOS.Fat32.Reopen
open ContinuumOS.Lib.Effect ContinuumOS.Lib.Memory ContinuumOS.Lib.Blocks
open ContinuumOS.Libc.String
open ContinuumOS.Fat32.Volume ContinuumOS.Fat32.Device ContinuumOS.Fat32.Allocation
open ContinuumOS.Fat32.Names ContinuumOS.Fat32.Directory ContinuumOS.Fat32.Scan
open ContinuumOS.Fat32.Paths ContinuumOS.Fat32.Lookup ContinuumOS.Fat32.Files
open ContinuumOS.Fat32.Descriptor ContinuumOS.Fat32.Refinement

/-- The directories lie in clusters in use, apart from the file's. -/
def Apart (w : World) (l : List Nat) : Prop := ∀ s, IsDir w s →
  ∃ d, ChainFrom w s d ∧ ∀ c ∈ d, c ∉ l ∧ nextOf w c ≠ 0

/-- The file of an entry has the clusters `l`: a chain that is just long enough,
and none when it is empty. -/
structure FileOk (w : World) (x : Lookup) (l : List Nat) : Prop where
  chain : Chain w l
  start : x.info.cluster = l.headD 0
  tight : ∀ q, q < l.length → q * clusterSize w < x.info.size
  cover : x.info.size ≤ l.length * clusterSize w

/-- The bytes of a file. -/
def fileBytes (w : World) (l : List Nat) (size : Nat) : List UInt8 :=
  (List.range size).map fun i => clusterBuf w (l.getD (i / clusterSize w) 0) (i % clusterSize w)

section

variable {w w' : World} {l l' : List Nat} {x : Lookup} {f : File} {fd : Nat} {a : AbstractFile}
  {path : CStr}

theorem Apart.directories (h : Apart w l) : Directories w := fun s hs =>
  let ⟨d, hd, _⟩ := h s hs
  ⟨d, hd⟩

theorem stored_fileBytes (g : Geometry w) {size : Nat} (h : size ≤ l.length * clusterSize w) :
    Stored (clusterBuf w) (clusterSize w) l (fileBytes w l size) := by
  have hlen : (fileBytes w l size).length = size := by simp [fileBytes]
  refine ⟨by rw [hlen]; exact h, fun i hi => ?_⟩
  rw [hlen] at hi
  have hq : i / clusterSize w < l.length :=
    (Nat.div_lt_iff_lt_mul g.clusterSize_pos).mpr (by omega)
  refine ⟨l[i / clusterSize w], List.getElem?_eq_getElem hq, ?_⟩
  simp [fileBytes, hi, hq]

/-! ## Opening -/

theorem lastClusterLoop_chain (g : Geometry w) : ∀ (rest : List Nat) (c rounds : Nat),
    Chain w (c :: rest) → rest.length < rounds →
    lastClusterLoop w.fs.fatTable rounds c = some ((c :: rest).getLastD 0)
  | [], c, rounds + 1, h, _ => by
    have hn : w.fs.fatTable c % 2 ^ 28 = endCluster := h.linked.1
    rw [lastClusterLoop, hn]
    rfl
  | d :: rest, c, rounds + 1, h, hr => by
    have hn : w.fs.fatTable c % 2 ^ 28 = d := h.linked.1
    have hd : isChained d = true := (h.inRange d (by simp)).isChained g
    have ih := lastClusterLoop_chain g rest d rounds
      ⟨h.linked.2, (List.nodup_cons.mp h.nodup).2, fun c hc => h.inRange c (by simp [hc])⟩
      (by simpa using hr)
    rw [lastClusterLoop, hn]
    simp only [hd, if_true, ih]
    rfl

theorem getLastCluster_chain (g : Geometry w) (h : Chain w l) :
    fat32GetLastCluster w (l.headD 0) = some (l.getLastD 0) := by
  cases l with
  | nil => rfl
  | cons c rest =>
    have hc : isChained c = true := (h.inRange c (by simp)).isChained g
    have hlen := length_le_of_inRange g h.nodup h.inRange
    simp only [List.headD_cons, fat32GetLastCluster, hc, if_true]
    exact lastClusterLoop_chain g rest c walkLimit h hlen

theorem Resolved.slot (hw : Calm w) (h : Apart w l) (hx : Resolved w x) :
    InRange w x.entryCluster ∧ x.entryIndex < entriesPerCluster w ∧ x.entryCluster ∉ l ∧
    nextOf w x.entryCluster ≠ 0 ∧
    slotKind (slotAt (clusterBuf w x.entryCluster) x.entryIndex) = .entry ∧
    ∃ st, x.info = slotInfo st (slotAt (clusterBuf w x.entryCluster) x.entryIndex) := by
  obtain ⟨hdir, name, hplain, hfinds⟩ := hx
  obtain ⟨d, hd, hap⟩ := h x.parentDir hdir
  have hfind := findEntry_eq hw.geometry hw.noFaults hw.mallocs hd hplain.ne_nil
  rw [Finds, hfind] at hfinds
  obtain ⟨r, hr, -, hf⟩ := findIn_some (Prod.mk.inj (Option.some.inj hfinds)).1
  obtain ⟨hp, hk, st, hi⟩ := mem_reports hr
  obtain ⟨hc, hidx, hslot⟩ := mem_dirSlots.mp hp
  obtain ⟨hinfo, hcl, hix⟩ := Found.mk.inj hf
  rw [hslot] at hk hi
  rw [hinfo, hcl, hix]
  exact ⟨hd.inRange _ hc, hidx, (hap _ hc).1, (hap _ hc).2, hk, st, hi⟩

/-- What a descriptor looks like after `fat32_open`, for an entry whose clusters
hold `b`. -/
theorem opened_openedFile (hf : FileOk w x l) {b : List UInt8}
    (hb : Stored (clusterBuf w) (clusterSize w) l b) (hlen : b.length = x.info.size)
    (hlt : x.info.size < 2 ^ 32) (he : Entry w l (openedFile x (l.getLastD 0)))
    (hfd : fd < maxOpenFiles) :
    Opened (w.setFile fd (openedFile x (l.getLastD 0))) fd l ⟨b, 0⟩ := by
  have hopen : (w.setFile fd (openedFile x (l.getLastD 0))).openFiles fd =
      openedFile x (l.getLastD 0) := setFile_openFiles_same
  refine ⟨hfd, by rw [hopen]; rfl, ?_, by rw [hopen]; rfl, ?_⟩
  · rw [hopen]
    have hc : Content w l (openedFile x (l.getLastD 0)) b := by
      refine ⟨hf.chain, hb, fun q hq => hlen ▸ hf.tight q hq, hf.start, rfl, hlen.symm, hlen ▸ hlt,
        ?_, Nat.zero_le _⟩
      change Place _ l 0 x.info.cluster 0
      rw [hf.start]
      exact place_start _ l
    exact content_congr hc rfl fun _ _ => rfl
  · rw [hopen]
    exact ⟨he.inRange, he.index_lt, he.apart, he.used, he.cluster, he.size⟩

theorem Resolved.entry (hw : Calm w) (h : Apart w l) (hx : Resolved w x) :
    Entry w l (openedFile x (l.getLastD 0)) := by
  obtain ⟨hin, hidx, hap, hused, -, st, hinfo⟩ := Resolved.slot hw h hx
  refine ⟨hin, hidx, hap, hused, ?_, ?_⟩
  · change slotCluster (slotAt (clusterBuf w x.entryCluster) x.entryIndex) = x.info.cluster
    rw [hinfo]
    rfl
  · change slotFileSize (slotAt (clusterBuf w x.entryCluster) x.entryIndex) = x.info.size
    rw [hinfo]
    rfl

/-- **What `fat32_open` does** on a well-formed file. -/
theorem open_eq (g : Geometry w) (hrun : fat32LookupPath path w = some (some x, w))
    (hf : FileOk w x l) (hdir : x.info.isDirectory = false) :
    fat32Open path w =
      match (List.range maxOpenFiles).find? fun fd => !(w.openFiles fd).inUse with
      | none => some (none, w)
      | some fd => some (some fd, w.setFile fd (openedFile x (l.getLastD 0))) := by
  simp only [fat32Open, bind_run, get_run, Option.bind_some, g.mounted, not_true_eq_false, if_false,
    ite_run, hrun, hdir, Bool.false_eq_true]
  cases (List.range maxOpenFiles).find? fun fd => !(w.openFiles fd).inUse with
  | none => rfl
  | some fd =>
    rw [hf.start, getLastCluster_chain g hf.chain]
    simp only [bind_run, setFile, modify_run, Option.bind_some, pure_run]

/-! ## The directories after the operations -/

/-- The same place on another volume. -/
def reread (w : World) (p : Placed) : Placed :=
  ⟨p.cluster, p.index, slotAt (clusterBuf w p.cluster) p.index⟩

/-- An entry as it stands on another volume. -/
def refound (w : World) (f : Found) : Found :=
  let e := slotAt (clusterBuf w f.cluster) f.index
  ⟨{ f.info with
    attributes := slotAttributes e
    size := slotFileSize e
    cluster := slotCluster e }, f.cluster, f.index⟩

theorem dirSlots_reread (h : entriesPerCluster w' = entriesPerCluster w) (d : List Nat) :
    dirSlots w' d = (dirSlots w d).map (reread w') := by
  simp only [dirSlots, clusterSlots, List.map_flatMap, List.map_map, h]
  rfl

theorem findIn_reread (rs : List Report) (name : CStr) :
    findIn (rs.map fun r => r.withSlot (reread w' r.place)) name =
      (findIn rs name).map (refound w') := by
  simp only [findIn, List.find?_map, Option.map_map]
  rfl

section

variable (hfr : FileFrame w l w' l' f) {c i : Nat} (h2 : 2 ≤ c) (hc : c ∉ l')

include hfr h2 hc

theorem slot_kept {j : Nat} (hj : ¬ IsFileField j) :
    slotAt (clusterBuf w' c) i j = slotAt (clusterBuf w c) i j := by
  by_cases hlt : j < slotSize
  · rw [slotAt, slotAt, if_pos hlt, if_pos hlt]
    by_cases hd : c = f.dirEntryCluster
    · subst hd
      refine hfr.entry _ fun k hk he => ?_
      have hk' : k < slotSize := by
        simp only [IsFileField, slotSize] at *
        omega
      have : i = f.dirEntryIndex ∧ j = k := by
        simp only [slotSize] at *
        omega
      exact hj (this.2 ▸ hk)
    · rw [hfr.bytes c h2 hc hd]
  · rw [slotAt_outside _ _ (Nat.not_lt.mp hlt), slotAt_outside _ _ (Nat.not_lt.mp hlt)]

theorem slot_same (hne : ¬ (c = f.dirEntryCluster ∧ i = f.dirEntryIndex)) :
    slotAt (clusterBuf w' c) i = slotAt (clusterBuf w c) i := by
  funext j
  by_cases hlt : j < slotSize
  · rw [slotAt, slotAt, if_pos hlt, if_pos hlt]
    by_cases hd : c = f.dirEntryCluster
    · subst hd
      refine hfr.entry _ fun k hk he => hne ⟨rfl, ?_⟩
      simp only [IsFileField, slotSize] at *
      omega
    · rw [hfr.bytes c h2 hc hd]
  · rw [slotAt_outside _ _ (Nat.not_lt.mp hlt), slotAt_outside _ _ (Nat.not_lt.mp hlt)]

theorem slotAttributes_kept :
    slotAttributes (slotAt (clusterBuf w' c) i) = slotAttributes (slotAt (clusterBuf w c) i) :=
  slot_kept hfr h2 hc (by simp only [IsFileField]; omega)

theorem slotName_kept :
    slotName (slotAt (clusterBuf w' c) i) = slotName (slotAt (clusterBuf w c) i) := by
  have hb : (List.range 11).map (slotAt (clusterBuf w' c) i) =
      (List.range 11).map (slotAt (clusterBuf w c) i) := by
    refine List.map_congr_left fun j hj => slot_kept hfr h2 hc ?_
    have := List.mem_range.mp hj
    simp only [IsFileField]
    omega
  simp only [slotName, hb]

theorem slotKind_kept :
    slotKind (slotAt (clusterBuf w' c) i) = slotKind (slotAt (clusterBuf w c) i) := by
  have h0 : slotAt (clusterBuf w' c) i 0 = slotAt (clusterBuf w c) i 0 :=
    slot_kept hfr h2 hc (by simp only [IsFileField]; omega)
  rw [slotKind, slotKind, isLongName, isLongName, h0, slotAttributes_kept hfr h2 hc]

end

theorem ChainFrom.kept (hfr : FileFrame w l w' l' f) {s : Nat} {d : List Nat} (hd : ChainFrom w s d)
    (hap : ∀ c ∈ d, c ∉ l') : ChainFrom w' s d := by
  obtain ⟨z, hz, hl⟩ := hd.linked
  refine ⟨hd.head, ⟨z, hz, hl.congr fun c hc => hfr.next c (hd.inRange c hc).1 (hap c hc)⟩,
    fun c hc => hfr.geometry.inRange.mpr (hd.inRange c hc), hd.nodup⟩

/-- **Searches find the same slots after the operations on a file.** -/
theorem follows_of_frame (hw : Calm w) (hw' : Calm w') (ha : Apart w l)
    (hfr : FileFrame w l w' l' f)
    (hk : slotKind (slotAt (clusterBuf w f.dirEntryCluster) f.dirEntryIndex) = .entry)
    (hdir : slotAttributes (slotAt (clusterBuf w f.dirEntryCluster) f.dirEntryIndex) &&&
      attrDirectory = 0) : Follows w w' (refound w') := by
  have hout : ∀ c, c ∉ l → nextOf w c ≠ 0 → c ∉ l' := fun c h₁ h₂ hm => h₂ (hfr.fresh c hm h₁).2
  -- an entry found, and the slot it stands in
  have hslot : ∀ s name g, IsDir w s → Plain name → Finds w s name g →
      2 ≤ g.cluster ∧ g.cluster ∉ l' ∧
        ∃ st, g.info = slotInfo st (slotAt (clusterBuf w g.cluster) g.index) := by
    intro s name g hs hplain hg
    obtain ⟨d, hd, hap⟩ := ha s hs
    rw [Finds, findEntry_eq hw.geometry hw.noFaults hw.mallocs hd hplain.ne_nil] at hg
    obtain ⟨r, hr, -, hf⟩ := findIn_some (Prod.mk.inj (Option.some.inj hg)).1
    obtain ⟨hp, -, st, hi⟩ := mem_reports hr
    obtain ⟨hc, -, hslot⟩ := mem_dirSlots.mp hp
    rw [hslot] at hi
    subst hf
    exact ⟨(hd.inRange _ hc).1, hout _ (hap _ hc).1 (hap _ hc).2, st, hi⟩
  refine ⟨hfr.geometry.mounted, hfr.geometry.fields.2.2.2.2.2.1, ?_, ?_, ?_⟩
  · intro s name g hs hplain hg
    obtain ⟨d, hd, hap⟩ := ha s hs
    have hap' : ∀ c ∈ d, c ∉ l' := fun c hc => hout c (hap c hc).1 (hap c hc).2
    have hper : entriesPerCluster w' = entriesPerCluster w := by
      rw [entriesPerCluster, entriesPerCluster, SameGeometry.clusterSize_eq hfr.geometry]
    have hin : ∀ p ∈ dirSlots w d, 2 ≤ p.cluster ∧ p.cluster ∉ l' ∧
        p.slot = slotAt (clusterBuf w p.cluster) p.index := by
      intro p hp
      obtain ⟨hc, -, hs⟩ := mem_dirSlots.mp hp
      exact ⟨(hd.inRange _ hc).1, hap' _ hc, hs⟩
    rw [Finds, findEntry_eq hw.geometry hw.noFaults hw.mallocs hd hplain.ne_nil] at hg
    rw [Finds, findEntry_eq hw'.geometry hw'.noFaults hw'.mallocs (ChainFrom.kept hfr hd hap')
      hplain.ne_nil, dirSlots_reread hper, reports_map, findIn_reread]
    · rw [(Prod.mk.inj (Option.some.inj hg)).1]
      rfl
    · intro p hp
      obtain ⟨h₁, h₂, h₃⟩ := hin p hp
      rw [h₃]
      exact slotKind_kept hfr h₁ h₂
    · intro p hp hlong
      obtain ⟨h₁, h₂, h₃⟩ := hin p hp
      rw [h₃] at hlong ⊢
      refine slot_same hfr h₁ h₂ ?_
      rintro ⟨hc, hi⟩
      rw [hc, hi, hk] at hlong
      cases hlong
    · intro p hp
      obtain ⟨h₁, h₂, h₃⟩ := hin p hp
      rw [h₃]
      exact slotName_kept hfr h₁ h₂
  · intro s name g hs hplain hg
    obtain ⟨h₁, h₂, st, hi⟩ := hslot s name g hs hplain hg
    simp only [refound, FileInfo.isDirectory, slotAttributes_kept hfr h₁ h₂]
    rw [hi]
    rfl
  · intro s name g hs hplain hg hd
    obtain ⟨h₁, h₂, st, hi⟩ := hslot s name g hs hplain hg
    have hne : ¬ (g.cluster = f.dirEntryCluster ∧ g.index = f.dirEntryIndex) := by
      rintro ⟨hc, hx⟩
      rw [FileInfo.isDirectory, hi, hc, hx] at hd
      change decide (slotAttributes _ &&& attrDirectory ≠ 0) = true at hd
      rw [hdir] at hd
      cases hd
    simp only [refound, slot_same hfr h₁ h₂ hne]
    rw [hi]
    rfl

/-! ## Closing and opening again -/

theorem find_free_fd (hfd : fd < maxOpenFiles) (h : (w.openFiles fd).inUse = false) :
    ∃ fd', (List.range maxOpenFiles).find? (fun fd => !(w.openFiles fd).inUse) = some fd' ∧
      fd' < maxOpenFiles := by
  cases hf : (List.range maxOpenFiles).find? fun fd => !(w.openFiles fd).inUse with
  | none =>
    have := List.find?_eq_none.mp hf fd (List.mem_range.mpr hfd)
    simp [h] at this
  | some fd' => exact ⟨fd', rfl, List.mem_range.mp (List.mem_of_find?_eq_some hf)⟩

theorem reopen {w₀ : World} (hw : Calm w₀) (ha : Apart w₀ l) (hx : Resolved w₀ x)
    (hp : path ≠ [] ∧ path ≠ [slash]) (hrun : fat32LookupPath path w₀ = some (some x, w₀))
    (hdir : x.info.isDirectory = false) (ho : Opened w fd l' a)
    (hfr : FileFrame w₀ l w l' (openedFile x (l.getLastD 0)))
    (he : SameEntry (openedFile x (l.getLastD 0)) (w.openFiles fd)) :
    ∃ fd' w', (do fat32Close fd; fat32Open path) w = some (some fd', w') ∧ Calm w' ∧
      Opened w' fd' l' ⟨a.bytes, 0⟩ ∧ ∃ g, w' = (w.setFile fd closedFile).setFile fd' g := by
  -- the volume with the descriptor closed
  let w₃ := w.setFile fd closedFile
  have hclose : fat32Close fd w = some ((), w₃) := by
    simp only [fat32Close, bind_run, get_run, Option.bind_some, fileOf_eq ho, setFile, modify_run]
    rfl
  have hfr₃ : FileFrame w₀ l w₃ l' (openedFile x (l.getLastD 0)) :=
    hfr.trans (fileFrame_setFile closedFile l')
  have hw₃ := hfr₃.calm hw
  obtain ⟨-, -, -, -, hkind, st, hinfo⟩ := Resolved.slot hw ha hx
  have hattr : slotAttributes (slotAt (clusterBuf w₀ x.entryCluster) x.entryIndex) &&&
      attrDirectory = 0 := by
    rw [hinfo] at hdir
    exact of_decide_eq_false hdir |> not_not.mp
  have hfollow := follows_of_frame hw hw₃ ha hfr₃ hkind hattr
  have hlook := lookupPath_follows (w := w₀) ⟨hw, ha.directories⟩ hfollow hp hrun
  generalize hy : updateWith (refound w₃) x = y at hlook
  -- the entry shows what the descriptor held
  obtain ⟨-, he₁, he₂, -⟩ := he
  have hslot : slotAt (clusterBuf w₃ x.entryCluster) x.entryIndex = entrySlot w (w.openFiles fd) := by
    rw [entrySlot, he₁, he₂]
    rfl
  have hycl : y.info.cluster = (w.openFiles fd).startCluster := by
    rw [← ho.entry.cluster, ← hslot, ← hy]
    rfl
  have hysz : y.info.size = (w.openFiles fd).fileSize := by
    rw [← ho.entry.size, ← hslot, ← hy]
    rfl
  have hydir : y.info.isDirectory = false := by
    obtain ⟨hs, name, hplain, hfinds⟩ := hx
    have := hfollow.isDirectory _ name _ hs hplain hfinds
    rw [← hy]
    exact this.trans hdir
  have hc := ho.content
  have hok : FileOk w₃ y l' := by
    refine ⟨⟨hc.chain.linked, hc.chain.nodup, hc.chain.inRange⟩, hycl.trans hc.start, ?_, ?_⟩
    · rw [hysz, hc.fileSize]
      exact hc.tight
    · rw [hysz, hc.fileSize]
      exact hc.stored.length_le
  have hentry : Entry w₃ l' (openedFile y (l'.getLastD 0)) := by
    have hycl' : y.entryCluster = (w.openFiles fd).dirEntryCluster := by
      rw [he₁, ← hy]
      rfl
    have hyix : y.entryIndex = (w.openFiles fd).dirEntryIndex := by
      rw [he₂, ← hy]
      rfl
    refine ⟨?_, ?_, ?_, ?_, ?_, ?_⟩
    · show InRange w y.entryCluster
      rw [hycl']
      exact ho.entry.inRange
    · show y.entryIndex < entriesPerCluster w
      rw [hyix]
      exact ho.entry.index_lt
    · show y.entryCluster ∉ l'
      rw [hycl']
      exact ho.entry.apart
    · show nextOf w y.entryCluster ≠ 0
      rw [hycl']
      exact ho.entry.used
    · show slotCluster (slotAt (clusterBuf w y.entryCluster) y.entryIndex) = y.info.cluster
      rw [hycl', hyix, hycl]
      exact ho.entry.cluster
    · show slotFileSize (slotAt (clusterBuf w y.entryCluster) y.entryIndex) = y.info.size
      rw [hycl', hyix, hysz]
      exact ho.entry.size
  obtain ⟨fd', hfind, hlt⟩ := find_free_fd (w := w₃) ho.fd_lt (by
    rw [show w₃.openFiles fd = closedFile from setFile_openFiles_same]
    rfl)
  have hopen := open_eq hw₃.geometry hlook hok hydir
  rw [hfind] at hopen
  refine ⟨fd', _, ?_, (fileFrame_setFile (f := openedFile y 0) _ l').calm hw₃,
    opened_openedFile hok ?_ ?_ ?_ hentry hlt, _, rfl⟩
  · simp only [bind_run, hclose, Option.bind_some]
    exact hopen
  · exact hc.stored
  · rw [hysz, hc.fileSize]
  · rw [hysz, hc.fileSize]
    exact hc.fileSize_lt

theorem lookup_resolved (hw : Calm w) (ha : Apart w l)
    (hx : fat32LookupPath path w = some (some x, w)) (hdir : x.info.isDirectory = false) :
    (path ≠ [] ∧ path ≠ [slash]) ∧ Resolved w x := by
  obtain ⟨r, hr, hcase⟩ := lookupPath_resolved (w := w) ⟨hw, ha.directories⟩ path
  rw [hr] at hx
  obtain rfl := (Prod.mk.inj (Option.some.inj hx)).1
  have hnot : ¬ (path = [] ∨ path = [slash]) := fun hp => by
    rw [fat32LookupPath] at hr
    simp only [bind_run, get_run, Option.bind_some, hw.geometry.mounted, not_true_eq_false,
      if_false, ite_run, if_pos hp] at hr
    obtain rfl := Option.some.inj (Prod.mk.inj (Option.some.inj hr)).1
    exact absurd (isDirectory_rootLookup w) (by rw [hdir]; decide)
  rcases hcase x rfl with ⟨hp, -⟩ | hres
  · exact absurd hp hnot
  · exact ⟨not_or.mp hnot, hres⟩

theorem open_resolved {w₁ : World} (hw : Calm w) (ha : Apart w l)
    (hx : fat32LookupPath path w = some (some x, w)) (hopen : fat32Open path w = some (some fd, w₁)) :
    x.info.isDirectory = false ∧ (path ≠ [] ∧ path ≠ [slash]) ∧ Resolved w x := by
  have hdir : x.info.isDirectory = false := by
    cases hd : x.info.isDirectory with
    | false => rfl
    | true =>
      simp only [fat32Open, bind_run, get_run, Option.bind_some, hw.geometry.mounted,
        not_true_eq_false, if_false, ite_run, hx, hd, if_true] at hopen
      cases hopen
  exact ⟨hdir, lookup_resolved hw ha hx hdir⟩

theorem open_found {w₁ : World} (g : Geometry w) (hx : fat32LookupPath path w = some (some x, w))
    (hf : FileOk w x l) (hdir : x.info.isDirectory = false)
    (hopen : fat32Open path w = some (some fd, w₁)) :
    fd < maxOpenFiles ∧ (w.openFiles fd).inUse = false ∧
      w₁ = w.setFile fd (openedFile x (l.getLastD 0)) := by
  rw [open_eq g hx hf hdir] at hopen
  cases hfind : (List.range maxOpenFiles).find? fun fd => !(w.openFiles fd).inUse with
  | none =>
    rw [hfind] at hopen
    cases hopen
  | some g =>
    rw [hfind] at hopen
    obtain ⟨hg, rfl⟩ := Prod.mk.inj (Option.some.inj hopen)
    obtain rfl := Option.some.inj hg
    have hfree := List.find?_some hfind
    exact ⟨List.mem_range.mp (List.mem_of_find?_eq_some hfind), by simpa using hfree, rfl⟩

end

/-- **A descriptor is a file with a cursor.** On a mounted volume whose device
and heap answer every request and whose directories are well formed and apart
from the file, every sequence of seeks, reads and writes on an open file with a
well-formed chain gives the results of the abstract file, as long as the free
clusters suffice; clusters of no file of this sequence keep their bytes, apart
from start cluster and size in the file's slot; and after closing, the path is
opened again to a descriptor that reads the abstract bytes. -/
theorem descriptor_refines_file {w₀ w₁ : World} {path : CStr} {x : Lookup} {l : List Nat} {fd : Nat}
    (hw : Calm w₀) (ha : Apart w₀ l) (hx : fat32LookupPath path w₀ = some (some x, w₀))
    (hf : FileOk w₀ x l) (hopen : fat32Open path w₀ = some (some fd, w₁)) (ops : List Op)
    (hb : BoundedAll ops ⟨fileBytes w₀ l x.info.size, 0⟩)
    (hroom : Fits w₀ l (abstractAll ops ⟨fileBytes w₀ l x.info.size, 0⟩).2.bytes.length) :
    ∃ (w₂ : World) (l' : List Nat), runAll fd ops w₁ =
        some ((abstractAll ops ⟨fileBytes w₀ l x.info.size, 0⟩).1, w₂) ∧
      (∀ c ∈ l', c ∈ l ∨ nextOf w₀ c = 0) ∧
      (∀ c, 2 ≤ c → c ∉ l' → c ≠ x.entryCluster → clusterBuf w₂ c = clusterBuf w₀ c) ∧
      (∀ i, (∀ j, IsFileField j → i ≠ x.entryIndex * slotSize + j) →
        clusterBuf w₂ x.entryCluster i = clusterBuf w₀ x.entryCluster i) ∧
      ∃ fd' w₃, (do fat32Close fd; fat32Open path) w₂ = some (some fd', w₃) ∧
        ∀ n, n < 2 ^ 31 → ∃ w₄, fat32Read fd' n w₃ =
          some (some ((abstractAll ops ⟨fileBytes w₀ l x.info.size, 0⟩).2.bytes.take n), w₄) := by
  obtain ⟨hdir, hp, hres⟩ := open_resolved hw ha hx hopen
  obtain ⟨-, -, -, -, -, st, hinfo⟩ := Resolved.slot hw ha hres
  obtain ⟨hlt, -, rfl⟩ := open_found hw.geometry hx hf hdir hopen
  have ho := opened_openedFile hf (stored_fileBytes hw.geometry hf.cover) (by simp [fileBytes])
    (by rw [hinfo]; exact readWord_lt _ _) (Resolved.entry hw ha hres) hlt
  have hfr₁ : FileFrame w₀ l (w₀.setFile fd (openedFile x (l.getLastD 0))) l
      (openedFile x (l.getLastD 0)) := fileFrame_setFile _ l
  obtain ⟨w₂, l', hrun, hs⟩ := run_refines ops (hfr₁.calm hw) ho hb hroom
  have hopen' : (w₀.setFile fd (openedFile x (l.getLastD 0))).openFiles fd =
    openedFile x (l.getLastD 0) := setFile_openFiles_same
  have hfr := hs.frame
  have he := hs.entry
  rw [hopen'] at hfr he
  have hfr := hfr₁.trans hfr
  obtain ⟨fd', w₃, hre, hw₃, ho₃, -⟩ := reopen hw ha hres hp hx hdir hs.opened hfr he
  refine ⟨w₂, l', hrun, fun c hc => ?_, hfr.bytes, hfr.entry, fd', w₃, hre, fun n hn => ?_⟩
  · by_cases hcl : c ∈ l
    · exact .inl hcl
    · exact .inr (hfr.fresh c hc hcl).2
  · obtain ⟨w₄, hread, -⟩ := read_refines hw₃ ho₃ n (by simp only; omega)
    rw [Op.run] at hread
    obtain ⟨r, w₅, h₁, h₂⟩ := bind_eq_some hread
    obtain ⟨h₃, rfl⟩ := Prod.mk.inj (Option.some.inj h₂)
    have hr : r = some ((List.drop 0 _).take n) := Result.bytes.inj h₃
    rw [List.drop_zero] at hr
    exact ⟨w₅, by rw [h₁, hr]⟩

/-! ## A file on a small volume -/

/-- `A` filled up with blanks. -/
def nameA : ShortName := .ofParts [0x41] []

/-- The root directory holds the empty file `A`. -/
def volumeA : World := (rootVolume [dirEntry nameA attrArchive 0 0]).setFat 2 endCluster

theorem calm_volumeA : Calm volumeA where
  geometry := sameGeometry_setTable.geometry (geometry_rootVolume _)
  noFaults _ := rfl
  flushable := by
    change 1 % 256 ≠ 0
    decide
  mallocs _ := rfl

theorem chainFrom_volumeA : ChainFrom volumeA 2 [2] where
  head := rfl
  linked := ⟨endCluster, by decide, by change endCluster % 2 ^ 28 = endCluster; decide, trivial⟩
  inRange c hc := by
    rw [List.mem_singleton.mp hc]
    exact ⟨Nat.le_refl 2, show 2 < 10 by decide⟩
  nodup := by simp

theorem apart_root {w : World} {l : List Nat} (hw : Calm w) (hroot : w.fs.rootCluster = 2)
    (hc : ChainFrom w 2 [2])
    (hnone : ((reports (dirSlots w [2])).all fun r => !r.info.isDirectory) = true) (hl : 2 ∉ l)
    (hused : nextOf w 2 ≠ 0) : Apart w l := by
  have hdir : ∀ s, IsDir w s → s = 2 := fun s h => by
    induction h with
    | root => exact hroot
    | sub dir plain finds isDir ih =>
      subst ih
      rw [Finds, findEntry_eq hw.geometry hw.noFaults hw.mallocs hc plain.ne_nil] at finds
      obtain ⟨r, hr, -, rfl⟩ := findIn_some (Prod.mk.inj (Option.some.inj finds)).1
      have := List.all_eq_true.mp hnone r hr
      rw [isDir] at this
      cases this
  intro s hs
  obtain rfl := hdir s hs
  exact ⟨[2], hc, fun c hm => List.mem_singleton.mp hm ▸ ⟨hl, hused⟩⟩

theorem apart_volumeA : Apart volumeA [] := by
  refine apart_root calm_volumeA rfl chainFrom_volumeA (by decide +kernel) (by simp) ?_
  change endCluster % 2 ^ 28 ≠ 0
  decide

/-- `/a` -/
def pathA : CStr := [slash, 0x61]

/-- Three bytes written to `/a` are read back, also after it was opened again. -/
theorem descriptor_refines_file_example : ∃ fd w₁ w₂ fd' w₃ w₄,
    fat32Open pathA volumeA = some (some fd, w₁) ∧
    runAll fd [.write [1, 2, 3], .seek 1, .read 9] w₁ =
      some ([.count 3, .moved true, .bytes (some [2, 3])], w₂) ∧
    (do fat32Close fd; fat32Open pathA) w₂ = some (some fd', w₃) ∧
    fat32Read fd' 9 w₃ = some (some [1, 2, 3], w₄) := by
  have hlook : (fat32LookupPath pathA volumeA).map (fun r => r.1) =
      some (some ⟨⟨[0x41], [0x41], false, attrArchive, 0, 0⟩, 2, 2, 0⟩) := by decide +kernel
  have hopen : (fat32Open pathA volumeA).map (fun r => r.1) = some (some 0) := by decide +kernel
  obtain ⟨⟨fd, w₁⟩, hrun₁, rfl⟩ := Option.map_eq_some_iff.mp hopen
  obtain ⟨r, hr, -⟩ := lookupPath_resolved (w := volumeA) ⟨calm_volumeA, apart_volumeA.directories⟩
    pathA
  rw [hr] at hlook
  obtain rfl := Option.some.inj hlook
  have hok : FileOk volumeA ⟨⟨[0x41], [0x41], false, attrArchive, 0, 0⟩, 2, 2, 0⟩ [] :=
    ⟨⟨trivial, by simp, by simp⟩, rfl, by simp, Nat.zero_le _⟩
  have hfree : 3 ∈ freeClusters volumeA :=
    mem_freeClusters.mpr ⟨⟨by decide, show 3 < 10 by decide⟩, rfl⟩
  have hpos := Finset.card_pos.mpr ⟨3, hfree⟩
  obtain ⟨w₂, l', hrun, -, -, -, fd', w₃, hre, hread⟩ := descriptor_refines_file calm_volumeA
    apart_volumeA hr hok hrun₁ [.write [1, 2, 3], .seek 1, .read 9]
    ⟨by change 0 + 3 < 2 ^ 31; decide, trivial, by change 1 + 9 < 2 ^ 31; decide, trivial⟩
    (fun q hq => by
      have hq : q * (1 * 512) < 3 := hq
      have : q = 0 := by omega
      omega)
  obtain ⟨w₄, hread⟩ := hread 9 (by decide)
  exact ⟨_, w₁, w₂, fd', w₃, w₄, hrun₁, hrun, hre, hread⟩

end ContinuumOS.Fat32.Reopen
