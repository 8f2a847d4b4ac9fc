import ContinuumOS.Fat32.Reopen
import ContinuumOS.Fat32.Search

/-! # Writes that fill the disk

`fat32_write` writes the entry of the file behind its loop. When the disk fills
up it returns from inside the loop, with the bytes written so far counted but
the entry as it was. -/
namespace ContinuumOS.Fat32.ShortWrites
open ContinuumOS.Lib.Effect ContinuumOS.Lib.Memory ContinuumOS.Lib.Blocks
open ContinuumOS.Libc.String
open ContinuumOS.Fat32.Volume ContinuumOS.Fat32.Device ContinuumOS.Fat32.Allocation
open ContinuumOS.Fat32.Names ContinuumOS.Fat32.Directory ContinuumOS.Fat32.Scan
open ContinuumOS.Fat32.Paths ContinuumOS.Fat32.Lookup ContinuumOS.Fat32.Files
open ContinuumOS.Fat32.Descriptor ContinuumOS.Fat32.Refinement ContinuumOS.Fat32.Reopen

/-- The most bytes that fit into the clusters of the file and the free ones. -/
def capacity (w : World) (l : List Nat) : Nat :=
  (l.length + (freeClusters w).card) * clusterSize w

/-- Cluster `c` lies on the chain of the directory at `s`, or on that of an entry in it. -/
def OwnedBy (w : World) (s c : Nat) : Prop :=
  ∃ d, ChainFrom w s d ∧ (c ∈ d ∨
    ∃ r ∈ reports (dirSlots w d), ∃ m, ChainFrom w r.info.cluster m ∧ c ∈ m)

/-- Every cluster in use belongs to a chain that is reached from a directory. -/
def Owned (w : World) : Prop :=
  ∀ c, InRange w c → nextOf w c ≠ 0 → ∃ s, IsDir w s ∧ OwnedBy w s c

/-- After the file is closed the path opens to at least the bytes up to the end
of `written`, which is read back at its position, and no cluster is lost. -/
def Durable (path : CStr) (fd position : Nat) (written : List UInt8) (w : World) : Prop :=
  ∃ fd' w', (do fat32Close fd; fat32Open path) w = some (some fd', w') ∧
    position + written.length ≤ (w'.openFiles fd').fileSize ∧
    (∃ bytes w'', fat32Read fd' (position + written.length) w' = some (some bytes, w'') ∧
      bytes.drop position = written) ∧ Owned w'

section

variable {w w' : World} {l l' : List Nat} {f f' : File} {b src : List UInt8} {fd : Nat}
  {a : AbstractFile} {x : Lookup} {path : CStr}

theorem capacity_eq (h : Frame w l w' l') : capacity w' l' = capacity w l := by
  have hfree := h.free
  rw [capacity, capacity, SameGeometry.clusterSize_eq h.geometry]
  congr 1
  omega

theorem position_le_chain (h : Content w l f b) : f.position ≤ l.length * clusterSize w :=
  h.position_le.trans h.stored.length_le

theorem length_le_capacity (w : World) (l : List Nat) :
    l.length * clusterSize w ≤ capacity w l := Nat.mul_le_mul_right _ (by omega)

/-! ## No cluster is left -/

theorem allocate_full (hw : Calm w) (hfull : (freeClusters w).card = 0) (p : Nat) :
    fat32AllocateCluster p w = some (0, w) := by
  have hnone : findFree w = none := by
    refine findFree_none.mpr fun c hc hz => ?_
    have hmem : c ∈ freeClusters w := mem_freeClusters.mpr ⟨hc, hz⟩
    rw [Finset.card_eq_zero.mp hfull] at hmem
    cases hmem
  rw [allocateCluster_eq hw.geometry hw.noFaults hw.flushable, if_pos (hw.mallocs 0), hnone,
    hw.mallocs.spend]

theorem clusterToWrite_full (hw : Calm w) (h : Content w l f b)
    (hpos : f.position = l.length * clusterSize w) (hfull : (freeClusters w).card = 0) :
    clusterToWrite f w = some ((f, false), w) := by
  have hcp := hw.geometry.clusterSize_pos
  have halloc := allocate_full hw hfull
  by_cases hne : l = []
  · -- the file has no first cluster
    have hs : f.startCluster < 2 := by
      rw [h.start, hne]
      decide
    simp only [clusterToWrite, firstCluster, ite_run, if_pos hs, bind_run, halloc, Option.bind_some,
      if_true, pure_run, Bool.false_eq_true, not_false_eq_true]
  have hstart : ¬ f.startCluster < 2 := by
    rw [h.start]
    have := (h.chain.inRange _ (Chain.head_mem hne)).1
    omega
  obtain ⟨q, hq, hle, hin | ⟨rfl, -, hcur⟩⟩ := h.place
  · -- at the end of the last cluster
    have hlt := (List.getElem?_eq_some_iff.mp hin).1
    have hql : q + 1 = l.length := by
      have h₁ : (q + 1) * clusterSize w ≥ l.length * clusterSize w := by
        rw [Nat.succ_mul]
        omega
      have := Nat.le_of_mul_le_mul_right h₁ hcp
      omega
    have hend : f.clusterPosition ≥ clusterSize w := by
      rw [← hql, Nat.succ_mul] at hpos
      omega
    have hch := (h.chain.inRange _ (List.mem_of_getElem? hin)).isChained hw.geometry
    have hnext := h.chain.next hin
    rw [List.getElem?_eq_none (by omega), Option.getD_none, nextOf] at hnext
    simp only [clusterToWrite, firstCluster, clusterAtEnd, nextCluster, ite_run, if_neg hstart, hch,
      bind_run, get_run, halloc, Option.bind_some, pure_run, not_true_eq_false, if_false,
      if_pos hend, hnext, not_isChained_endCluster, Bool.false_eq_true, if_true]
  · -- behind the end of the chain
    rw [if_neg hne] at hcur
    simp only [clusterToWrite, firstCluster, clusterAtEnd, ite_run, if_neg hstart, hcur,
      not_isChained_endCluster, bind_run, halloc, Option.bind_some, pure_run, Bool.false_eq_true,
      not_true_eq_false, not_false_eq_true, if_true, if_false]

/-! ## The loop up to the last cluster -/

theorem writeLoop_counts : ∀ (rounds : Nat) (f : File) (src : List UInt8) (written : Nat),
    Triple (fun _ => True) (writeLoop rounds f src written) fun r _ => written ≤ r.2.1
  | 0, f, src, written => by
    rw [writeLoop]
    exact .ite (fun _ => .pure fun _ _ => Nat.le_refl _) fun _ => .diverge
  | rounds + 1, f, src, written => by
    rw [writeLoop]
    refine .ite (fun _ => .pure fun _ _ => Nat.le_refl _) fun _ => ?_
    refine .bind (Q := fun _ _ => True) (fun _ _ _ _ _ => trivial) fun x => ?_
    obtain ⟨f₁, ok⟩ := x
    refine .ite (fun _ => .pure fun _ _ => Nat.le_refl _) fun _ => ?_
    refine .bind (Q := fun _ _ => True) (fun _ _ _ _ _ => trivial) fun r => ?_
    cases r with
    | none => exact .pure fun _ _ => Nat.le_refl _
    | some n =>
      exact (writeLoop_counts rounds _ _ _).post fun r _ h => (Nat.le_add_right _ _).trans h

/-- **The loop of `fat32_write` on any disk.** It writes everything or stops when
all free clusters are in the file and full. -/
theorem writeLoop_stops : ∀ (rounds : Nat) (w : World) (l : List Nat) (f : File)
    (b src : List UInt8) (written total : Nat) (ok : Bool) (f' : File) (w' : World), Calm w →
    Content w l f b → writeLoop rounds f src written w = some ((f', total, ok), w') →
    f.position + (total - written) < 2 ^ 32 ∨ capacity w l < 2 ^ 32 →
    (ok = true → total = written + src.length) ∧
      (ok = false → f.position + (total - written) = capacity w l) ∧ ∃ l', Frame w l w' l' ∧
      w'.openFiles = w.openFiles ∧ SameEntry f f' ∧
      Content w' l' f' (overwrite b f.position (src.take (total - written))) := by
  intro rounds
  induction rounds with
  | zero =>
    intro w l f b src written total ok f' w' hw h hrun _
    rw [writeLoop, ite_run] at hrun
    split at hrun
    · rename_i hsrc
      cases hrun
      refine ⟨fun _ => by simp [hsrc], by simp, l, .refl w l, rfl, ⟨rfl, rfl, rfl, rfl⟩, ?_⟩
      rw [Nat.sub_self, List.take_zero, overwrite_nil]
      exact h
    · cases hrun
  | succ rounds ih =>
    intro w l f b src written total ok f' w' hw h hrun hlt
    have hle := position_le_chain h
    rw [writeLoop] at hrun
    by_cases hsrc : src = []
    · rw [ite_run, if_pos hsrc] at hrun
      cases hrun
      refine ⟨fun _ => by simp [hsrc], by simp, l, .refl w l, rfl, ⟨rfl, rfl, rfl, rfl⟩, ?_⟩
      rw [Nat.sub_self, List.take_zero, overwrite_nil]
      exact h
    simp only [ite_run, if_neg hsrc, bind_run] at hrun
    by_cases hfull : f.position = l.length * clusterSize w ∧ (freeClusters w).card = 0
    · obtain ⟨hpos, hzero⟩ := hfull
      have hstop := clusterToWrite_full hw h hpos hzero
      simp only [hstop, Option.bind_some, Bool.false_eq_true, not_false_eq_true, if_true,
        pure_run] at hrun
      cases hrun
      refine ⟨by simp, fun _ => ?_, l, .refl w l, rfl, ⟨rfl, rfl, rfl, rfl⟩, ?_⟩
      · rw [capacity, hzero, Nat.add_zero, Nat.sub_self, Nat.add_zero, hpos]
      · rw [Nat.sub_self, List.take_zero, overwrite_nil]
        exact h
    · obtain ⟨w₁, l₁, f₁, q, hrun₁, hf₁, ho₁, hwr, hp₁, he₁⟩ := clusterToWrite_spec hw h fun hp =>
        Nat.pos_of_ne_zero fun h0 => hfull ⟨hp, h0⟩
      have hw₁ := hf₁.calm hw
      obtain ⟨n, w₂, hrun₂, hn, hns, hend, hf₂, ho₂, hc₂⟩ := writeChunk_writes hw₁ hwr hsrc
      simp only [hrun₁, hrun₂, Option.bind_some, not_true_eq_false, if_false] at hrun
      have hcount : written + n ≤ total := writeLoop_counts rounds _ _ _ w₂ trivial _ _ hrun
      have hfit : f.position + n < 2 ^ 32 := by
        have hcap := length_le_capacity w₁ l₁
        rw [capacity_eq hf₁] at hcap
        omega
      have hmod : (f.position + n) % 2 ^ 32 = f.position + n := Nat.mod_eq_of_lt hfit
      have hp₂ : (advanced f₁ n).position = f.position + n := by
        show (f₁.position + n) % 2 ^ 32 = _
        rw [hp₁, hmod]
      have hcap₂ := capacity_eq (hf₁.trans hf₂)
      obtain ⟨hall, hshort, l', hf₃, ho₃, he₃, hc₃⟩ := ih w₂ l₁ (advanced f₁ n) _ (src.drop n)
        (written + n) total ok f' w' (hf₂.calm hw₁) (hc₂ (by omega)) hrun (by rw [hp₂, hcap₂]; omega)
      rw [hp₂, hcap₂] at hshort
      rw [List.length_drop] at hall
      have hadv : SameEntry f₁ (advanced f₁ n) := ⟨rfl, rfl, rfl, rfl⟩
      refine ⟨fun hok => ?_, fun hok => ?_, l', (hf₁.trans hf₂).trans hf₃,
        ho₃.trans (ho₂.trans ho₁), he₁.trans (hadv.trans he₃), ?_⟩
      · have := hall hok
        omega
      · have := hshort hok
        omega
      · rw [hp₂, hp₁] at hc₃
        have hjoin := overwrite_overwrite (s := src.take n)
          (t := (src.drop n).take (total - (written + n))) h.position_le
        rw [List.length_take, Nat.min_eq_left hns, ← List.take_add] at hjoin
        rw [hjoin, show n + (total - (written + n)) = total - written by omega] at hc₃
        exact hc₃

/-- What a write that filled the disk left behind: the descriptor and the
clusters of the longer file, and the entry of the old one. -/
structure Shortened (w : World) (fd : Nat) (l : List Nat) (a : AbstractFile) (s : List UInt8)
    (w' : World) (l' : List Nat) : Prop where
  capacity : capacity w l = a.cursor + s.length
  frame : FileFrame w l w' l' (w.openFiles fd)
  bytes : ∀ c, 2 ≤ c → c ∉ l' → clusterBuf w' c = clusterBuf w c
  entry : SameEntry (w.openFiles fd) (w'.openFiles fd)
  content : Content w' l' (w'.openFiles fd) (overwrite a.bytes a.cursor s)

/-- **A short write fills the disk and leaves the entry alone.** -/
theorem write_short (hw : Calm w) (ho : Opened w fd l a) {n : Nat} (hn : 0 < n)
    (hshort : n < src.length) (hlt : a.cursor + n < 2 ^ 32 ∨ capacity w l < 2 ^ 32)
    (hrun : fat32Write fd src w = some ((n : Int), w')) :
    ∃ l', Shortened w fd l a (src.take n) w' l' := by
  have hcur := ho.cursor
  have hlen : (src.take n).length = n := by rw [List.length_take]; omega
  simp only [fat32Write, bind_run, get_run, Option.bind_some, fileOf_eq ho, ite_run,
    if_neg (show ¬ src.length = 0 by omega), hw.mallocs.kmalloc hw.geometry.clusterSize_pos,
    if_true] at hrun
  cases hloop : writeLoop src.length (w.openFiles fd) src 0 w with
  | none =>
    rw [hloop] at hrun
    cases hrun
  | some r =>
    obtain ⟨⟨f', total, ok⟩, w₁⟩ := r
    simp only [hloop, Option.bind_some, setFile, modify_run, pure_run] at hrun
    have hspec := writeLoop_stops _ _ _ _ _ _ _ _ _ _ _ hw ho.content hloop
    rw [Nat.sub_zero, Nat.zero_add, hcur] at hspec
    cases ok with
    | true =>
      -- everything was written, which is more than `n`
      exfalso
      simp only [not_true_eq_false, if_false] at hrun
      cases hup : fat32UpdateFileEntry f' (w₁.setFile fd f') with
      | none =>
        rw [hup] at hrun
        cases hrun
      | some r =>
        rw [hup] at hrun
        simp only [Option.bind_some] at hrun
        split at hrun
        · have htn : (total : Int) = n := (Prod.mk.inj (Option.some.inj hrun)).1
          rcases hlt with hlt | hcap
          · have hall := (hspec (.inl (by omega))).1 rfl
            omega
          · have hall := (hspec (.inr hcap)).1 rfl
            omega
        · have hneg : (-1 : Int) = n := (Prod.mk.inj (Option.some.inj hrun)).1
          omega
    | false =>
      simp only [Bool.false_eq_true, not_false_eq_true, if_true] at hrun
      obtain ⟨hret, rfl⟩ := Prod.mk.inj (Option.some.inj hrun)
      obtain rfl : total = n := by
        split at hret <;> omega
      obtain ⟨-, hcap, l', hf, -, he, hc⟩ := hspec hlt
      have hapart : f'.dirEntryCluster ∉ l' := by
        rw [he.2.1]
        exact hf.not_mem ho.entry.apart ho.entry.used
      have hopen : (w₁.setFile fd f').openFiles fd = f' := setFile_openFiles_same
      have h₁ : FileFrame w l w₁ l' f' := .of_frame hf (by rw [he.2.1]; exact ho.entry.inRange.1) hapart
      refine ⟨l', by rw [hlen, hcap rfl], ?_, hf.bytes, by rw [hopen]; exact he, ?_⟩
      · exact (h₁.trans (fileFrame_setFile f' l')).congr_entry he
      · rw [hopen]
        exact content_congr hc rfl fun _ _ => rfl

/-! ## Writes inside the file -/

/-- All links are kept, and all clusters but those of `l`. -/
structure SameLinks (w : World) (l : List Nat) (w' : World) : Prop where
  geometry : SameGeometry w w'
  next : ∀ c, 2 ≤ c → nextOf w' c = nextOf w c
  bytes : ∀ c, 2 ≤ c → c ∉ l → clusterBuf w' c = clusterBuf w c

theorem SameLinks.chainFrom (h : SameLinks w l w') {s : Nat} {d : List Nat} (hd : ChainFrom w s d) :
    ChainFrom w' s d := by
  obtain ⟨z, hz, hl⟩ := hd.linked
  refine ⟨hd.head, ⟨z, hz, hl.congr fun c hc => h.next c (hd.inRange c hc).1⟩, fun c hc => ?_,
    hd.nodup⟩
  exact h.geometry.inRange.mpr (hd.inRange c hc)

theorem SameLinks.dirSlots (h : SameLinks w l w') {d : List Nat} (hd : ∀ c ∈ d, 2 ≤ c ∧ c ∉ l) :
    dirSlots w' d = dirSlots w d := by
  have hper : entriesPerCluster w' = entriesPerCluster w := by
    rw [entriesPerCluster, entriesPerCluster, SameGeometry.clusterSize_eq h.geometry]
  refine List.flatMap_congr fun c hc => ?_
  obtain ⟨h2, hn⟩ := hd c hc
  rw [h.bytes c h2 hn, hper]

theorem SameLinks.isDir (h : SameLinks w l w') (hw : Calm w) (hw' : Calm w') (ha : Apart w l) {s : Nat}
    (hs : IsDir w s) : IsDir w' s := by
  induction hs with
  | root =>
    have hroot : w'.fs.rootCluster = w.fs.rootCluster := h.geometry.fields.2.2.2.2.2.1
    exact hroot ▸ .root
  | @sub s name g dir plain finds isDir ih =>
    obtain ⟨d, hd, hap⟩ := ha s dir
    refine .sub ih plain ?_ isDir
    rw [Finds, findEntry_eq hw.geometry hw.noFaults hw.mallocs hd plain.ne_nil] at finds
    rw [Finds, findEntry_eq hw'.geometry hw'.noFaults hw'.mallocs (h.chainFrom hd) plain.ne_nil,
      h.dirSlots fun c hc => ⟨(hd.inRange c hc).1, (hap c hc).1⟩,
      (Prod.mk.inj (Option.some.inj finds)).1]

theorem SameLinks.owned (h : SameLinks w l w') (hw : Calm w) (hw' : Calm w') (ha : Apart w l)
    (ho : Owned w) : Owned w' := by
  intro c hc hn
  rw [h.next c hc.1] at hn
  obtain ⟨s, hs, e, he, hcase⟩ := ho c (h.geometry.inRange.mp hc) hn
  obtain ⟨d, hd, hap⟩ := ha s hs
  refine ⟨s, h.isDir hw hw' ha hs, d, h.chainFrom hd, ?_⟩
  obtain rfl : e = d := chainFrom_unique hw.geometry he hd
  rcases hcase with hmem | ⟨r, hr, m, hm, hmem⟩
  · exact .inl hmem
  · refine .inr ⟨r, ?_, m, h.chainFrom hm, hmem⟩
    rw [h.dirSlots fun c hc => ⟨(hd.inRange c hc).1, (hap c hc).1⟩]
    exact hr

/-! ## Sizes are 32-bit words -/

/-- What was found has a 32-bit size. -/
def Sized (found : Option Found) : Prop := ∀ f, found = some f → f.info.size < 2 ^ 32

theorem findEntry_sized (s : Nat) (name : CStr) :
    Triple (fun _ => True) (fat32FindEntryInDirectory s name) fun r _ => Sized r := by
  refine (Search.findEntry_scanned s name).post fun r _ h f hf => ?_
  obtain ⟨-, st, e, hinfo⟩ := h f hf
  rw [hinfo]
  exact readWord_lt _ _

theorem lookupPath_sized (path : CStr) :
    Triple (fun _ => True) (fat32LookupPath path) fun r _ => ∀ x, r = some x → x.info.size < 2 ^ 32 := by
  rw [fat32LookupPath]
  refine .get_bind fun w _ => .ite (fun _ => .pure fun _ _ x hx => by cases hx) fun _ => ?_
  refine .ite (fun _ => .pure fun _ _ x hx => ?_) fun _ => ?_
  · obtain rfl := Option.some.inj hx
    exact Nat.two_pow_pos 32
  · have h := Search.lookupLoop_holds (Q := fun f => f.info.size < 2 ^ 32) findEntry_sized
      ((path.take maxPath).length + 1) (path.take maxPath) w.fs.rootCluster none
      fun x hx => by cases hx
    exact h.pre fun _ _ => trivial

theorem open_size (h : fat32Open path w = some (some fd, w')) :
    ∃ x w₁, fat32LookupPath path w = some (some x, w₁) ∧
      (w'.openFiles fd).fileSize = x.info.size := by
  simp only [fat32Open, bind_run, get_run, Option.bind_some, ite_run, pure_run] at h
  split at h
  · cases h
  · cases hl : fat32LookupPath path w with
    | none =>
      rw [hl] at h
      cases h
    | some r =>
      obtain ⟨_ | x, w₁⟩ := r
      · rw [hl] at h
        cases h
      · simp only [hl, Option.bind_some, ite_run, pure_run, bind_run, get_run] at h
        split at h
        · cases h
        · refine ⟨x, w₁, rfl, ?_⟩
          cases hfind : (List.range maxOpenFiles).find? fun fd => !(w₁.openFiles fd).inUse with
          | none =>
            rw [hfind] at h
            cases h
          | some g =>
            simp only [hfind] at h
            cases hlast : fat32GetLastCluster w₁ x.info.cluster with
            | none =>
              rw [hlast] at h
              cases h
            | some last =>
              simp only [hlast, setFile, modify_run, bind_run, Option.bind_some, pure_run] at h
              obtain ⟨hg, rfl⟩ := Prod.mk.inj (Option.some.inj h)
              obtain rfl := Option.some.inj hg
              rw [setFile_openFiles_same]
              rfl

theorem open_size_lt (h : fat32Open path w = some (some fd, w')) :
    (w'.openFiles fd).fileSize < 2 ^ 32 := by
  obtain ⟨x, w₁, hx, hs⟩ := open_size h
  rw [hs]
  exact lookupPath_sized path w trivial _ _ hx x rfl

/-! ## What is found after a short write -/

theorem Shortened.reopened_size (h : Shortened w fd l a b w' l') (hw : Calm w) (ha : Apart w l)
    (ho : Opened w fd l a) (hx : fat32LookupPath path w = some (some x, w))
    (hdir : x.info.isDirectory = false)
    (he : SameEntry (openedFile x (l.getLastD 0)) (w.openFiles fd)) {fd' : Nat} {w'' : World}
    (hrun : (do fat32Close fd; fat32Open path) w' = some (some fd', w'')) :
    (w''.openFiles fd').fileSize = a.bytes.length := by
  obtain ⟨hp, hres⟩ := lookup_resolved hw ha hx hdir
  obtain ⟨hin, -, hap, hused, hkind, st, hinfo⟩ := Resolved.slot hw ha hres
  let w₃ := w'.setFile fd closedFile
  have hinUse : (w'.openFiles fd).inUse = true := h.entry.2.2.2.trans ho.inUse
  have hclose : fat32Close fd w' = some ((), w₃) := by
    simp only [fat32Close, bind_run, get_run, Option.bind_some, fileOf, setFile, modify_run,
      if_pos (show fd < maxOpenFiles ∧ (w'.openFiles fd).inUse = true from ⟨ho.fd_lt, hinUse⟩)]
    rfl
  have hfr : FileFrame w l w₃ l' (openedFile x (l.getLastD 0)) :=
    (h.frame.congr_entry he).trans (fileFrame_setFile closedFile l')
  have hattr : slotAttributes (slotAt (clusterBuf w x.entryCluster) x.entryIndex) &&&
      attrDirectory = 0 := by
    rw [hinfo] at hdir
    exact of_decide_eq_false hdir |> not_not.mp
  have hfollow := follows_of_frame hw (hfr.calm hw) ha hfr hkind hattr
  have hlook := lookupPath_follows (w := w) ⟨hw, ha.directories⟩ hfollow hp hx
  rw [bind_run, hclose, Option.bind_some] at hrun
  obtain ⟨y, w₁, hy, hsize⟩ := open_size hrun
  rw [hlook] at hy
  obtain ⟨hy, -⟩ := Prod.mk.inj (Option.some.inj hy)
  obtain rfl := Option.some.inj hy
  have hout : x.entryCluster ∉ l' := fun hm => hused (hfr.fresh _ hm hap).2
  have hslot : slotAt (clusterBuf w₃ x.entryCluster) x.entryIndex = entrySlot w (w.openFiles fd) := by
    rw [show clusterBuf w₃ x.entryCluster = clusterBuf w x.entryCluster from
      h.bytes _ hin.1 hout, entrySlot, he.2.1, he.2.2.1]
    rfl
  rw [hsize, ← ho.content.fileSize, ← ho.entry.size, ← hslot]
  rfl

theorem Shortened.sameLinks (h : Shortened w fd l a b w' l') (ho : Opened w fd l a)
    (hfull : (freeClusters w).card = 0) : l' = l ∧ SameLinks w l w' := by
  have hfree := h.frame.free
  obtain rfl : l = l' := h.frame.grown.eq_of_length_le (by omega)
  refine ⟨rfl, h.frame.geometry, fun c h2 => ?_, h.bytes⟩
  by_cases hc : c ∈ l
  · obtain ⟨q, hq⟩ := List.getElem?_of_mem hc
    rw [h.content.chain.next hq, ho.content.chain.next hq]
  · exact h.frame.next c h2 hc

theorem Shortened.opened (h : Shortened w fd l a b w' l) (ho : Opened w fd l a)
    (hs : SameLinks w l w') (hin : a.cursor + b.length ≤ a.bytes.length) :
    Opened w' fd l ⟨overwrite a.bytes a.cursor b, (w'.openFiles fd).position⟩ := by
  obtain ⟨-, he₁, he₂, he₃⟩ := h.entry
  have hlen := length_overwrite (s := b) (show a.cursor ≤ a.bytes.length by omega)
  have hslot : entrySlot w' (w'.openFiles fd) = entrySlot w (w.openFiles fd) := by
    rw [entrySlot, entrySlot, he₁, he₂, hs.bytes _ ho.entry.inRange.1 ho.entry.apart]
  refine ⟨ho.fd_lt, he₃.trans ho.inUse, h.content, rfl, ?_, ?_, ?_, ?_, ?_, ?_⟩
  · rw [he₁]
    exact hs.geometry.inRange.mpr ho.entry.inRange
  · rw [he₂, entriesPerCluster, SameGeometry.clusterSize_eq hs.geometry]
    exact ho.entry.index_lt
  · rw [he₁]
    exact ho.entry.apart
  · rw [he₁, hs.next _ ho.entry.inRange.1]
    exact ho.entry.used
  · rw [hslot, ho.entry.cluster, ho.content.start, h.content.start]
  · rw [hslot, ho.entry.size, ho.content.fileSize, h.content.fileSize, hlen]
    omega

theorem take_overwrite {c : Nat} {s : List UInt8} (h : c ≤ a.bytes.length) :
    ((overwrite a.bytes c s).take (c + s.length)).drop c = s := by
  rw [overwrite, List.append_assoc, List.take_append, List.length_take, Nat.min_eq_left h,
    List.take_of_length_le (by rw [List.length_take]; omega), Nat.add_sub_cancel_left,
    List.take_left, List.drop_left' (by rw [List.length_take]; omega)]

/-- **When a short write is durable.** On a well-formed volume a `fat32_write`
that stops because the disk is full, and returns `n > 0`, is durable just when it
took no cluster and wrote nothing behind the old end of the file: no cluster was
free to begin with, and the file filled its last cluster. -/
theorem short_write_durable_iff (hw : Calm w) (ha : Apart w l) (ho : Opened w fd l a)
    (hx : fat32LookupPath path w = some (some x, w)) (hdir : x.info.isDirectory = false)
    (he : SameEntry (openedFile x (l.getLastD 0)) (w.openFiles fd)) (hown : Owned w) {n : Nat}
    (hn : 0 < n) (hshort : n < src.length) (hrun : fat32Write fd src w = some ((n : Int), w')) :
    Durable path fd a.cursor (src.take n) w' ↔
      (freeClusters w).card = 0 ∧ a.bytes.length = l.length * clusterSize w := by
  have hlen : (src.take n).length = n := by rw [List.length_take]; omega
  have hcover := ho.content.stored.length_le
  have hcur : a.cursor ≤ a.bytes.length := ho.cursor ▸ ho.content.position_le
  constructor
  · rintro ⟨fd', w'', hre, hsize, -, -⟩
    have hlt := open_size_lt ((bind_eq_some hre).choose_spec.choose_spec.2)
    rw [hlen] at hsize
    obtain ⟨l', hs⟩ := write_short hw ho hn hshort (.inl (by omega)) hrun
    have hcap := hs.capacity
    rw [hs.reopened_size hw ha ho hx hdir he hre] at hsize
    rw [hlen, capacity, Nat.add_mul] at hcap
    -- the clusters of the file hold all that was written
    have hzero : (freeClusters w).card * clusterSize w = 0 := by omega
    refine ⟨?_, by omega⟩
    rcases Nat.mul_eq_zero.mp hzero with h0 | h0
    · exact h0
    · exact absurd h0 hw.geometry.clusterSize_pos.ne'
  · rintro ⟨hfull, hall⟩
    have hcap : capacity w l = a.bytes.length := by rw [capacity, hfull, Nat.add_zero, hall]
    obtain ⟨l', hs⟩ := write_short hw ho hn hshort (.inr (hcap ▸ ho.content.fileSize_lt)) hrun
    obtain ⟨rfl, hsame⟩ := hs.sameLinks ho hfull
    have hend : a.cursor + (src.take n).length = a.bytes.length := hs.capacity.symm.trans hcap
    obtain ⟨hp, hres⟩ := lookup_resolved hw ha hx hdir
    obtain ⟨fd', w'', hre, hw'', ho'', g, hg⟩ := reopen hw ha hres hp hx hdir
      (hs.opened ho hsame hend.le) (hs.frame.congr_entry he) (he.trans hs.entry)
    have hsize : (w''.openFiles fd').fileSize = a.bytes.length := by
      rw [ho''.content.fileSize, length_overwrite hcur]
      omega
    have hlt := ho.content.fileSize_lt
    obtain ⟨w₁, hread, -⟩ := read_refines hw'' ho'' (a.cursor + (src.take n).length) (by
      show 0 + _ < _
      omega)
    refine ⟨fd', w'', hre, by rw [hsize, hend], ?_, ?_⟩
    · rw [Op.run] at hread
      obtain ⟨r, w₂, h₁, h₂⟩ := bind_eq_some hread
      obtain ⟨h₃, rfl⟩ := Prod.mk.inj (Option.some.inj h₂)
      have hr : r = some ((List.drop 0 _).take _) := Result.bytes.inj h₃
      exact ⟨_, w₂, by rw [h₁, hr], by rw [List.drop_zero]; exact take_overwrite hcur⟩
    · have hsame'' : SameLinks w l' w'' := by
        subst hg
        exact ⟨hsame.geometry.trans ⟨rfl, rfl, rfl, rfl⟩, hsame.next, hsame.bytes⟩
      exact hsame''.owned hw hw'' ha hown

end

/-! ## A volume with two clusters -/

/-- The entry of `A`: with one full cluster, or empty. -/
def infoA (full : Bool) : FileInfo :=
  ⟨[0x41], [0x41], false, attrArchive, if full then 512 else 0, if full then 3 else 0⟩

def foundA (full : Bool) : Lookup := ⟨infoA full, 2, 2, 0⟩

/-- Cluster 2 is the root directory with the file `A`, which is open; cluster 3
is the file's or free. -/
def tinyVolume (full : Bool) : World :=
  let w := rootVolume [dirEntry nameA attrArchive (infoA full).cluster (infoA full).size]
  let t := fun c => if c = 2 ∨ c = 3 ∧ full then endCluster else 0
  { w with fs := { w.fs with totalClusters := 4, fatTable := t } }.setFile 0
    (openedFile (foundA full) (infoA full).cluster)

/-- The clusters of the file. -/
def clustersA (full : Bool) : List Nat := if full then [3] else []

section

variable {full : Bool}

theorem inRange_tinyVolume {c : Nat} (h : InRange (tinyVolume full) c) : c = 2 ∨ c = 3 := by
  obtain ⟨h2, h4⟩ := h
  have h4 : c < 4 := h4
  omega

theorem calm_tinyVolume (full : Bool) : Calm (tinyVolume full) where
  geometry := by constructor <;> simp [tinyVolume, rootVolume, smallVolume, World.setFile, sectorSize]
  noFaults _ := rfl
  flushable := by
    show 1 % 256 ≠ 0
    decide
  mallocs _ := rfl

theorem chainFrom_tinyVolume (full : Bool) : ChainFrom (tinyVolume full) 2 [2] where
  head := rfl
  linked := ⟨endCluster, by decide, by cases full <;> rfl, trivial⟩
  inRange c hc := by
    rw [List.mem_singleton.mp hc]
    exact ⟨Nat.le_refl 2, show 2 < 4 by decide⟩
  nodup := by simp

theorem tinyVolume_values (full : Bool) :
    ((reports (dirSlots (tinyVolume full) [2])).all fun r => !r.info.isDirectory) = true ∧
    (fat32LookupPath pathA (tinyVolume full)).map (fun r => r.1) = some (some (foundA full)) ∧
    (full = true → (reports (dirSlots (tinyVolume full) [2])).any (fun r => r.info.cluster == 3) =
      true) ∧
    (fat32Write 0 (List.replicate 513 1) (tinyVolume full)).map (fun r => r.1) = some 512 := by
  cases full <;> decide +kernel

theorem apart_tinyVolume (full : Bool) : Apart (tinyVolume full) (clustersA full) := by
  refine apart_root (calm_tinyVolume full) rfl (chainFrom_tinyVolume full)
    (tinyVolume_values full).1 ?_ ?_
  · cases full <;> decide
  · cases full <;> decide

theorem fileOk_tinyVolume (full : Bool) : FileOk (tinyVolume full) (foundA full) (clustersA full) := by
  cases full with
  | false => exact ⟨⟨trivial, by simp [clustersA], by simp [clustersA]⟩, rfl, by simp [clustersA], by decide⟩
  | true =>
    refine ⟨⟨⟨rfl, trivial⟩, by simp [clustersA], fun c hc => ?_⟩, rfl, fun q hq => ?_, by decide⟩
    · obtain rfl := List.mem_singleton.mp hc
      exact ⟨by decide, show 3 < 4 by decide⟩
    · obtain rfl : q = 0 := by
        have : q < 1 := hq
        omega
      decide

theorem lookup_tinyVolume (full : Bool) :
    fat32LookupPath pathA (tinyVolume full) = some (some (foundA full), tinyVolume full) := by
  have hlook := (tinyVolume_values full).2.1
  obtain ⟨r, hr, -⟩ := lookupPath_resolved (w := tinyVolume full)
    ⟨calm_tinyVolume full, (apart_tinyVolume full).directories⟩ pathA
  rw [hr] at hlook ⊢
  rw [← Option.some.inj hlook]

theorem opened_tinyVolume (full : Bool) : Opened (tinyVolume full) 0 (clustersA full)
    ⟨fileBytes (tinyVolume full) (clustersA full) (infoA full).size, 0⟩ := by
  have hw := calm_tinyVolume full
  have hf := fileOk_tinyVolume full
  obtain ⟨-, hres⟩ := lookup_resolved hw (apart_tinyVolume full) (lookup_tinyVolume full) (by
    cases full <;> rfl)
  have hlast : (clustersA full).getLastD 0 = (infoA full).cluster := by cases full <;> rfl
  have hfd : 0 < maxOpenFiles := by decide
  have ho := opened_openedFile hf (stored_fileBytes hw.geometry hf.cover)
    (by rw [fileBytes, List.length_map, List.length_range]) (by cases full <;> decide)
    (Resolved.entry hw (apart_tinyVolume full) hres) hfd
  rw [hlast, tinyVolume, setFile_setFile] at ho
  exact ho

theorem sameEntry_tinyVolume (full : Bool) :
    SameEntry (openedFile (foundA full) ((clustersA full).getLastD 0))
      ((tinyVolume full).openFiles 0) := by
  rw [tinyVolume, setFile_openFiles_same]
  exact ⟨rfl, rfl, rfl, rfl⟩

theorem owned_tinyVolume (full : Bool) : Owned (tinyVolume full) := by
  intro c hc hn
  refine ⟨2, .root, [2], chainFrom_tinyVolume full, ?_⟩
  rcases inRange_tinyVolume hc with rfl | rfl
  · exact .inl (by simp)
  · cases full with
    | false => exact absurd rfl hn
    | true =>
      obtain ⟨r, hr, hcl⟩ := List.any_eq_true.mp ((tinyVolume_values true).2.2.1 rfl)
      have hf := fileOk_tinyVolume true
      refine .inr ⟨r, hr, [3], ?_, by simp⟩
      rw [beq_iff_eq.mp hcl]
      exact ⟨rfl, ⟨endCluster, by decide, hf.chain.linked⟩, hf.chain.inRange, hf.chain.nodup⟩

theorem write_tinyVolume (full : Bool) :
    ∃ w', fat32Write 0 (List.replicate 513 1) (tinyVolume full) = some (((512 : Nat) : Int), w') := by
  obtain ⟨⟨n, w'⟩, hr, rfl⟩ := Option.map_eq_some_iff.mp (tinyVolume_values full).2.2.2
  exact ⟨w', hr⟩

end

/-- One cluster is free and the file empty: its entry stays as it was. -/
theorem short_write_not_durable : ¬ ∀ (w w' : World) (l : List Nat) (fd : Nat) (a : AbstractFile)
    (path : CStr) (x : Lookup) (src : List UInt8) (n : Nat), Calm w → Apart w l → Opened w fd l a →
    fat32LookupPath path w = some (some x, w) → x.info.isDirectory = false →
    SameEntry (openedFile x (l.getLastD 0)) (w.openFiles fd) → Owned w → 0 < n → n < src.length →
    fat32Write fd src w = some ((n : Int), w') → Durable path fd a.cursor (src.take n) w' := by
  intro h
  obtain ⟨w', hrun⟩ := write_tinyVolume false
  have hw := calm_tinyVolume false
  have ha := apart_tinyVolume false
  have ho := opened_tinyVolume false
  have hx := lookup_tinyVolume false
  have he := sameEntry_tinyVolume false
  have hlen : 512 < (List.replicate 513 (1 : UInt8)).length := by rw [List.length_replicate]; decide
  obtain ⟨l', hs⟩ := write_short hw ho (by decide) hlen (.inl (by decide)) hrun
  obtain ⟨fd', w'', hre, hsize, -, -⟩ := h _ w' _ 0 _ pathA _ _ 512 hw ha ho hx rfl he
    (owned_tinyVolume false) (by decide) hlen hrun
  rw [hs.reopened_size hw ha ho hx rfl he hre, List.length_take, List.length_replicate] at hsize
  exact absurd hsize (by decide)

/-- No cluster is free, and the full cluster of the file is written over. -/
theorem short_write_durable_iff_example : ∃ w',
    fat32Write 0 (List.replicate 513 1) (tinyVolume true) = some (((512 : Nat) : Int), w') ∧
    Durable pathA 0 0 ((List.replicate 513 1).take 512) w' := by
  obtain ⟨w', hrun⟩ := write_tinyVolume true
  refine ⟨w', hrun, (short_write_durable_iff (calm_tinyVolume true) (apart_tinyVolume true)
    (opened_tinyVolume true) (lookup_tinyVolume true) rfl (sameEntry_tinyVolume true)
    (owned_tinyVolume true) (by decide) (by rw [List.length_replicate]; decide) hrun).mpr ⟨?_, ?_⟩⟩
  · refine Finset.card_eq_zero.mpr (Finset.filter_eq_empty_iff.mpr fun c hc => ?_)
    have hin : InRange (tinyVolume true) c := Finset.mem_Ico.mp hc
    rcases inRange_tinyVolume hin with rfl | rfl <;> decide
  · simp only [fileBytes, List.length_map, List.length_range]
    rfl

end ContinuumOS.Fat32.ShortWrites
