import ContinuumOS.Fat32.FailedCreation

/-! # What a removal does

The slot of the entry and the long-name slots before it are marked, the chain of
the entry is freed, and nothing else changes. The marked slots carry no report, and
the long-name state behind them is as empty as behind the entry, so the other
entries of the directory are told of as before. In a directory in which no name
stands for two entries the path then leads nowhere. -/
namespace ContinuumOS.Fat32.Removing
open ContinuumOS.Lib.Effect ContinuumOS.Lib.MapEnd ContinuumOS.Libc.String
open ContinuumOS.Fat32.Volume ContinuumOS.Fat32.Device ContinuumOS.Fat32.Allocation
open ContinuumOS.Fat32.Names ContinuumOS.Fat32.Directory ContinuumOS.Fat32.Scan
open ContinuumOS.Fat32.Paths ContinuumOS.Fat32.Lookup ContinuumOS.Fat32.Search
open ContinuumOS.Fat32.Insertion ContinuumOS.Fat32.Deletion ContinuumOS.Fat32.Ownership
open ContinuumOS.Fat32.Entries ContinuumOS.Fat32.Edits ContinuumOS.Fat32.ShortNames
open ContinuumOS.Fat32.FailedCreation

/-! ## Names and listings -/

/-- The long and the short name of an entry, in lower case. -/
def namesOf (info : FileInfo) : List CStr :=
  [info.filename.map fat32ToLower, info.shortName.map fat32ToLower]

/-- No name stands for two of the entries, whatever the case of its letters. -/
def CaseDistinct (rs : List Report) : Prop :=
  rs.Pairwise fun r r' => (namesOf r.info).Disjoint (namesOf r'.info)

/-- What a listing shows. -/
def listed (rs : List Report) : List FileInfo :=
  (rs.map Report.info).filter fun info =>
    !decide (info.filename = [dot] ∨ info.filename = [dot, dot])

/-- The directory at `s` is listed with the entries `rs`, if the heap has a buffer. -/
def Lists (w : World) (s : Nat) (rs : List Report) : Prop :=
  ∀ n m, m 0 = true →
    ∃ t, fat32ListDirectory s n (withHeap w m) = some (some ((listed rs).take n), t)

/-! ## Removals -/

/-- `fat32_remove` and `fat32_rmdir_path` -/
inductive Removal
  | remove
  | rmdir
  deriving DecidableEq, Repr

def Removal.run : Removal → CStr → Fat Bool
  | .remove => fat32Remove
  | .rmdir => fat32RmdirPath

/-- The path led to a file, or to a directory whose listing is empty. -/
def Removal.Removable (w : World) : Removal → Paths.Lookup → Prop
  | .remove, x => x.info.isDirectory = false
  | .rmdir, x => x.info.isDirectory = true ∧
      ∃ lc, DirClusters w x.info.cluster lc ∧ listed (reports (dirSlots w lc)) = []

/-- The entry `p` that `x` tells of was removed. `l` is the chain of its directory,
whose slots are `pre`, `p` and `post`, and `lc` is the chain of the entry. -/
structure Removed (w : World) (x : Paths.Lookup) (l lc : List Nat) (pre : List Placed) (p : Placed)
    (post : List Placed) (w' : World) : Prop where
  same : SameGeometry w w'
  directory : UsedChain w x.parentDir l
  slots : dirSlots w l = pre ++ p :: post
  entry : slotKind p.slot = .entry
  place : locationOf p = ⟨x.entryCluster, x.entryIndex⟩
  contents : DirClusters w x.info.cluster lc
  used : ∀ c ∈ lc, nextOf w c ≠ 0
  kept : UsedChain w' x.parentDir l
  /-- The slot and exactly the long-name slots directly before it are marked. -/
  marked : dirSlots w' l = mapEnd isLfnSlot erased pre ++ erased p :: post
  /-- Exactly the clusters of the chain are free now. -/
  freed : ∀ c, nextOf w' c = if c ∈ lc then 0 else nextOf w c
  bytes : ∀ c, 2 ≤ c → c ∉ l → clusterBuf w' c = clusterBuf w c
  others : ∀ d, DirectoryAt w d → d ≠ x.parentDir →
    (x.info.isDirectory = true → d ≠ x.info.cluster) → SameListing w w' d
  remaining : ∃ a r b, r.place = p ∧ reports (dirSlots w l) = a ++ r :: b ∧
    reports (dirSlots w' l) = a ++ b ∧ Lists w x.parentDir (a ++ r :: b) ∧
    Lists w' x.parentDir (a ++ b)

section

variable {good : List Placed → Prop} {w w' : World} {owner : Nat → Nat} {s d : Nat}
  {l lc : List Nat} {pre post ps : List Placed} {p q : Placed} {st st' : Lfn} {e : Buf}
  {a b : List Report} {r : Report} {name path : CStr} {f : Found} {x y : Paths.Lookup}

/-! ## The long-name state behind a marked slot -/

theorem collect_idle (h : st.expected = 0) (h' : st'.expected = 0) :
    st.collect e = st'.collect e ∨ (st.collect e).expected = 0 ∧ (st'.collect e).expected = 0 := by
  unfold Lfn.collect
  by_cases hseq : (e 0 &&& 0x1F).toNat = 0
  · rw [if_pos hseq, if_pos hseq]
    exact .inr ⟨rfl, rfl⟩
  · rw [if_neg hseq, if_neg hseq]
    by_cases hlast : e 0 &&& 0x40 ≠ 0
    · simp only [if_pos hlast, Nat.lt_irrefl, if_false]
      exact .inl trivial
    · simp only [if_neg hlast, h, h', Nat.pos_of_ne_zero hseq, if_true]
      exact .inr ⟨rfl, rfl⟩

theorem reportsOf_idle : ∀ (ps : List Placed) {st st' : Lfn}, st.expected = 0 → st'.expected = 0 →
    reportsOf st ps = reportsOf st' ps
  | [], _, _, _, _ => rfl
  | p :: ps, st, st', h, h' => by
    have hreset : reportsOf st.reset ps = reportsOf st'.reset ps := reportsOf_idle ps rfl rfl
    have hafter : reportsOf (lfnAfter st p.slot) ps = reportsOf (lfnAfter st' p.slot) ps := by
      rw [lfnAfter, lfnAfter]
      split
      · rcases collect_idle (e := p.slot) h h' with he | ⟨he, he'⟩
        · rw [he]
        · exact reportsOf_idle ps he he'
      · exact hreset
    have hnames : ∀ {st : Lfn}, st.expected = 0 → ¬ st.Names p.slot := fun h hn => by
      have hpos := hn.1
      rw [h] at hpos
      exact absurd hpos (Nat.lt_irrefl 0)
    have hinfo : slotInfo st p.slot = slotInfo st' p.slot := by
      simp [slotInfo, hnames h, hnames h']
    rw [reportsOf, reportsOf, hafter, hinfo]

theorem reportsOf_eq_nil : ∀ {ps : List Placed} {st : Lfn}, (∀ q ∈ ps, slotKind q.slot ≠ .entry) →
    reportsOf st ps = []
  | [], _, _ => rfl
  | q :: ps, st, h => by
    rw [reportsOf, if_neg (h q (by simp))]
    exact reportsOf_eq_nil fun q hq => h q (by simp [hq])

/-- **The other entries are told of as before.** -/
theorem reports_erased (ho : Orderly (pre ++ p :: post)) (hp : slotKind p.slot = .entry) :
    ∃ a r b, r.place = p ∧ reports (pre ++ p :: post) = a ++ r :: b ∧
      reports (mapEnd isLfnSlot erased pre ++ erased p :: post) = a ++ b := by
  have hend : notEnd p = true := notEnd_of_kind (by rw [hp]; decide)
  have hmarked : ∀ q, notEnd (erased q) = true := fun q =>
    notEnd_of_kind (by rw [slotKind_erased]; decide)
  have hpre : ∀ q ∈ pre, notEnd q = true := fun q hq =>
    ((List.pairwise_append.mp ho).2.2 q hq p (by simp)).1 hend
  have hpre' : ∀ q ∈ mapEnd isLfnSlot erased pre, notEnd q = true := by
    intro q hq
    rcases mem_mapEnd hq with hq | ⟨r, -, -, rfl⟩
    · exact hpre q hq
    · exact hmarked r
  -- the long-name slots that are marked carry no report, before and after
  have hrun : ∀ q ∈ pre.rtakeWhile isLfnSlot, slotKind q.slot ≠ .entry := by
    intro q hq
    have hlong : slotKind q.slot = .longName := by
      simpa [isLfnSlot] using List.mem_rtakeWhile_imp hq
    rw [hlong]
    decide
  have hrun' : ∀ q ∈ (pre.rtakeWhile isLfnSlot).map erased, slotKind q.slot ≠ .entry := by
    intro q hq
    obtain ⟨q, -, rfl⟩ := List.mem_map.mp hq
    rw [slotKind_erased]
    decide
  have hsplit : pre = pre.rdropWhile isLfnSlot ++ pre.rtakeWhile isLfnSlot :=
    List.rdropWhile_append_rtakeWhile.symm
  have hafter : lfnAfter (stateAfter Lfn.init pre) p.slot = (stateAfter Lfn.init pre).reset :=
    if_neg (by rw [hp]; decide)
  refine ⟨reportsOf Lfn.init (pre.rdropWhile isLfnSlot), ⟨p, slotInfo (stateAfter Lfn.init pre) p.slot⟩,
    reportsOf (stateAfter Lfn.init pre).reset (post.takeWhile notEnd), rfl, ?_, ?_⟩
  · rw [reports, List.takeWhile_append_of_pos hpre, List.takeWhile_cons_of_pos hend,
      reportsOf_append, reportsOf, if_pos hp, hafter]
    congr 1
    conv_lhs => rw [hsplit]
    rw [reportsOf_append, reportsOf_eq_nil hrun, List.append_nil]
  · have hnone : ∀ st : Lfn, reportsOf st (erased p :: post.takeWhile notEnd) =
        reportsOf st.reset (post.takeWhile notEnd) := by
      intro st
      rw [reportsOf, if_neg (by rw [slotKind_erased]; decide), lfnAfter,
        if_neg (by rw [slotKind_erased]; decide)]
    rw [reports, List.takeWhile_append_of_pos hpre', List.takeWhile_cons_of_pos (hmarked p),
      reportsOf_append, hnone, mapEnd, reportsOf_append, reportsOf_eq_nil hrun', List.append_nil]
    congr 1
    exact reportsOf_idle _ rfl rfl

/-! ## A search without the entry -/

theorem slotInfo_no_nul (st : Lfn) (e : Buf) :
    0 ∉ (slotInfo st e).filename ∧ 0 ∉ (slotInfo st e).shortName := by
  have htake : ∀ chars : CStr, 0 ∉ chars.takeWhile (· ≠ 0) := fun chars hm => by
    simpa using List.mem_takeWhile_imp hm
  have hshort : 0 ∉ fat32ShortNameToString (slotName e) := htake _
  refine ⟨?_, hshort⟩
  simp only [slotInfo]
  split
  · exact htake _
  · exact hshort

theorem mem_namesOf (hr : r ∈ reports ps) (h0 : 0 ∉ name) (ha : answersTo r.info name = true) :
    name.map fat32ToLower ∈ namesOf r.info := by
  obtain ⟨-, -, st, hinfo⟩ := mem_reports hr
  obtain ⟨hlong, hshort⟩ := slotInfo_no_nul st r.place.slot
  rw [← hinfo] at hlong hshort
  rw [answersTo, Bool.or_eq_true, beq_iff_eq, beq_iff_eq] at ha
  rcases ha with ha | ha
  · rw [← casecmp_eq_zero hlong h0 ha]
    simp [namesOf]
  · rw [← casecmp_eq_zero hshort h0 ha]
    simp [namesOf]

theorem reportsOf_places : ∀ (ps : List Placed) (st : Lfn),
    ((reportsOf st ps).map Report.place).Sublist ps
  | [], _ => .slnil
  | p :: ps, st => by
    have ih := reportsOf_places ps (lfnAfter st p.slot)
    rw [reportsOf]
    split
    · exact ih.cons_cons p
    · exact ih.cons p

theorem nodup_places (hl : l.Nodup) :
    ((reports (dirSlots w l)).map fun r => locationOf r.place).Nodup := by
  have hsub := (reportsOf_places ((dirSlots w l).takeWhile notEnd) Lfn.init).trans
    (List.takeWhile_prefix notEnd).sublist
  have hmap := (nodup_locations (w := w) hl).sublist (hsub.map locationOf)
  rwa [List.map_map] at hmap

/-- **Without an entry, what answered to its names is not found, and the rest is
found as before.** -/
theorem findIn_without (hall : ∀ q ∈ a ++ r :: b, ∃ ps, q ∈ reports ps) (h0 : 0 ∉ name)
    (hd : CaseDistinct (a ++ r :: b)) (hn : ((a ++ r :: b).map fun q => locationOf q.place).Nodup)
    (hf : findIn (a ++ r :: b) name = some f) : findIn (a ++ b) name = none ∨
      findIn (a ++ b) name = some f ∧ (⟨f.cluster, f.index⟩ : Location) ≠ locationOf r.place := by
  have hanswers : ∀ q ∈ a ++ r :: b, answersTo q.info name = true →
      name.map fat32ToLower ∈ namesOf q.info := fun q hq ha =>
    let ⟨_, hq⟩ := hall q hq
    mem_namesOf hq h0 ha
  rw [List.map_append, List.map_cons] at hn
  obtain ⟨-, hnb, hcross⟩ := List.nodup_append.mp hn
  have hfront : ∀ q ∈ a, locationOf q.place ≠ locationOf r.place := fun q hq =>
    hcross _ (List.mem_map_of_mem hq) _ (by simp)
  have hback : ∀ q ∈ b, locationOf q.place ≠ locationOf r.place := fun q hq he =>
    (List.nodup_cons.mp hnb).1 (he ▸ List.mem_map_of_mem hq)
  rw [findIn, List.find?_append] at hf ⊢
  cases ha : a.find? fun q => answersTo q.info name with
  | some q =>
    rw [ha] at hf
    obtain rfl := Option.some.inj hf
    exact .inr ⟨rfl, hfront q (List.mem_of_find?_eq_some ha)⟩
  | none =>
    rw [ha, Option.none_or, List.find?_cons] at hf
    rw [Option.none_or]
    cases hr : answersTo r.info name with
    | true =>
      -- nothing else answers to a name of the entry
      have hnone : b.find? (fun q => answersTo q.info name) = none := by
        refine List.find?_eq_none.mpr fun q hq hans => ?_
        have hdis := List.rel_of_pairwise_cons (List.pairwise_append.mp hd).2.1 hq
        exact hdis (hanswers r (by simp) hr) (hanswers q (by simp [hq]) hans)
      exact .inl (by rw [hnone]; rfl)
    | false =>
      rw [hr] at hf
      refine .inr ⟨hf, ?_⟩
      obtain ⟨q, hq, rfl⟩ := Option.map_eq_some_iff.mp hf
      exact hback q (List.mem_of_find?_eq_some hq)

/-! ## A lookup without the entry -/

/-- A search at `d` that found an entry finds the same one, which does not lie at
`loc`, or nothing. -/
def Loses (w w' : World) (loc : Location) (d : Nat) : Prop :=
  ∃ l l', DirClusters w d l ∧ DirClusters w' d l' ∧ ∀ name f, 0 ∉ name →
    findIn (reports (dirSlots w l)) name = some f →
      findIn (reports (dirSlots w' l')) name = none ∨
      findIn (reports (dirSlots w' l')) name = some f ∧ (⟨f.cluster, f.index⟩ : Location) ≠ loc

theorem Hit.survives (hw : Ready w) (h : Tidy good w (Directory w) owner) (hx : Hit w x p)
    (hc : Contents w x lc) (hy : Hit w y q) (hdir : y.info.isDirectory = true)
    (hne : locationOf q ≠ locationOf p) : y.info.cluster ∉ lc := by
  intro hm
  obtain ⟨hlc, hhead⟩ := hc.chain.resolve_right fun hn => by
    rw [hn.2] at hm
    cases hm
  have hchained := (hlc.inRange _ hm).isChained hw.geometry
  have hyd : Directory w y.info.cluster := (hy.directory hdir).resolve_right fun hn => by
    rw [hn] at hchained
    cases hchained
  obtain ⟨m, hmc, -⟩ := h.chain hyd
  by_cases he : y.info.cluster = x.info.cluster
  · have hyh := hy.holds (hy.info_cluster ▸ hchained)
    have hxh := hx.holds (hx.info_cluster ▸ he ▸ hchained)
    obtain ⟨-, rfl⟩ := h.unique hw.geometry hy.parent hx.parent hyh hxh
      (by rw [← hy.info_cluster, ← hx.info_cluster, he])
    exact hne rfl
  · exact hc.apart hw h (.inl hyd) hmc.toChainFrom he _ (List.mem_of_head? hmc.head) hm

/-- A search that found `f` finds nothing afterwards, for want of a buffer or of the entry, or
`f` again, which then is not the entry removed. -/
theorem findEntry_loses {s : Nat} {component : CStr} {u v : World} {f : Found} (hw : Ready w)
    (hw' : Ready w') (hne : component ≠ []) (h0 : 0 ∉ component)
    (hloses : Loses w w' (locationOf p) s) (hq : Quiet w u)
    (hfind : fat32FindEntryInDirectory s component u = some (some f, v)) (m : Nat → Bool) :
    ∃ r, fat32FindEntryInDirectory s component (withHeap w' m) =
        some (r, (withHeap w' m).spend) ∧
      (r = none ∨ r = some f ∧ (⟨f.cluster, f.index⟩ : Location) ≠ locationOf p) := by
  obtain ⟨l, l', hcl, hcl', hlost⟩ := hloses
  have hq' := quiet_withHeap w' m
  have hfind' := findEntry_run (ready_quiet hw' hq') (hcl'.quiet hq') hne
  rw [dirSlots_quiet hq'] at hfind'
  rw [findEntry_run (ready_quiet hw hq) (hcl.quiet hq) hne, dirSlots_quiet hq] at hfind
  have hfound : findIn (reports (dirSlots w l)) component = some f := by
    have hf := (Prod.mk.inj (Option.some.inj hfind)).1
    split at hf
    · exact hf
    · cases hf
  refine ⟨_, hfind', ?_⟩
  split
  · exact hlost _ f h0 hfound
  · exact .inl rfl

theorem lookupLoop_loses (hw : Ready w) (hw' : Ready w') (h : Tidy good w (Directory w) owner)
    (hgood : ∀ ps, good ps → Orderly ps) (hx : Hit w x p) (hc : Contents w x lc)
    (hloses : ∀ d, DirectoryAt w d → d ∉ lc → Loses w w' (locationOf p) d) :
    ∀ (rounds : Nat) (cursor : CStr) (s : Nat) (last : Option Paths.Lookup) (u t : World)
    (y : Paths.Lookup), 0 ∉ cursor → DirectoryAt w s → s ∉ lc →
    (∀ z, last = some z → (⟨z.entryCluster, z.entryIndex⟩ : Location) ≠ locationOf p) →
    Quiet w u → lookupLoop rounds cursor s last u = some (some y, t) →
    (⟨y.entryCluster, y.entryIndex⟩ : Location) = locationOf p →
    ∀ m, ∃ t', lookupLoop rounds cursor s last (withHeap w' m) = some (none, t')
  | 0, _, _, last, u, t, y, _, _, _, hl, _, hrun, hy, m => by
    obtain ⟨rfl, -⟩ := Prod.mk.inj (Option.some.inj hrun)
    exact absurd hy (hl y rfl)
  | rounds + 1, cursor, s, last, u, t, y, h0, hs, hslc, hl, hq, hrun, hy, m => by
    have hcur : 0 ∉ cursor.dropWhile (· == slash) := fun hm =>
      h0 ((List.dropWhile_suffix _).subset hm)
    have hcomp : 0 ∉ (cursor.dropWhile (· == slash)).takeWhile (· ≠ slash) := fun hm =>
      hcur ((List.takeWhile_prefix _).subset hm)
    have hrest : 0 ∉ ((cursor.dropWhile (· == slash)).dropWhile (· ≠ slash)).tail := fun hm =>
      hcur ((List.dropWhile_suffix _).subset (List.mem_of_mem_tail hm))
    rw [lookupLoop] at hrun ⊢
    simp only [ite_run, pure_run] at hrun ⊢
    split at hrun
    · obtain ⟨rfl, -⟩ := Prod.mk.inj (Option.some.inj hrun)
      exact absurd hy (hl y rfl)
    rename_i hcursor
    rw [if_neg hcursor]
    split at hrun
    · cases hrun
    rename_i hlen
    rw [if_neg hlen]
    split at hrun
    · rename_i h₁
      rw [if_pos h₁]
      exact lookupLoop_loses hw hw' h hgood hx hc hloses rounds _ s last u t y hrest hs hslc hl hq
        hrun hy m
    rename_i h₁
    rw [if_neg h₁]
    split at hrun
    · cases hrun
    rename_i h₂
    rw [if_neg h₂]
    have hplain := plain_component hcursor h₁ h₂
    obtain ⟨r, v, hfind, hnext⟩ := bind_eq_some hrun
    obtain ⟨hhit, hqv⟩ := findEntry_hits hw h hgood hs hplain hcomp u hq r v hfind
    cases r with
    | none => cases hnext
    | some f =>
      obtain ⟨q, hfq⟩ := hhit f rfl
      obtain ⟨r', hfind', hr⟩ :=
        findEntry_loses hw hw' hplain.ne_nil hcomp (hloses s hs hslc) hq hfind m
      rcases hr with rfl | ⟨rfl, hne⟩
      · exact ⟨_, by rw [bind_run, hfind']; rfl⟩
      · simp only [ite_run, pure_run] at hnext
        simp only [bind_run, hfind', Option.bind_some, ite_run, pure_run]
        split at hnext
        · obtain ⟨he, -⟩ := Prod.mk.inj (Option.some.inj hnext)
          rw [← Option.some.inj he] at hy
          exact absurd hy hne
        rename_i hmore
        rw [if_neg hmore]
        split at hnext
        · cases hnext
        rename_i hdir
        rw [if_neg hdir]
        have hdir : f.info.isDirectory = true := by simpa using hdir
        have hloc : locationOf q ≠ locationOf p := fun he => hne (by
          rw [← he, locationOf, ← hfq.cluster, ← hfq.index])
        have hsurvives : f.info.cluster ∉ lc := Hit.survives hw h hx hc hfq hdir hloc
        exact lookupLoop_loses hw hw' h hgood hx hc hloses rounds _ _ _ v t y hrest
          (hfq.directory hdir) hsurvives (fun z hz => Option.some.inj hz ▸ hne) hqv hnext hy
          (advance m)

/-! ## Listings -/

theorem feed_list (n : Nat) : ∀ (rs : List Report) (files : List FileInfo), files.length ≤ n →
    outcome (feed (listCallback n) rs files) = (0, files ++ (listed rs).take (n - files.length))
  | [], files, _ => by simp [feed, outcome, listed]
  | r :: rs, files, hle => by
    rw [feed, listCallback]
    by_cases hdot : r.info.filename = [dot] ∨ r.info.filename = [dot, dot]
    · have hskip : listed (r :: rs) = listed rs := List.filter_cons_of_neg (by simp [hdot])
      rw [if_pos hdot, hskip]
      exact feed_list n rs files hle
    · have hkeep : listed (r :: rs) = r.info :: listed rs :=
        List.filter_cons_of_pos (by simp [hdot])
      rw [if_neg hdot, hkeep]
      by_cases hfull : files.length ≥ n
      · rw [if_pos hfull, Nat.sub_eq_zero_of_le hfull, List.take_zero, List.append_nil]
        rfl
      · have hlen : (files ++ [r.info]).length = files.length + 1 := by simp
        have htake : (r.info :: listed rs).take (n - files.length) =
            r.info :: (listed rs).take (n - (files.length + 1)) := by
          rw [show n - files.length = n - (files.length + 1) + 1 by omega, List.take_succ_cons]
        have ih := feed_list n rs (files ++ [r.info]) (by rw [hlen]; exact Nat.not_le.mp hfull)
        rw [hlen, List.append_assoc, List.singleton_append] at ih
        rw [if_neg hfull, htake]
        exact ih

/-- **A listing shows the entries in order**, as many as are asked for. -/
theorem lists_reports (hw : Ready w) (hl : DirClusters w s l) :
    Lists w s (reports (dirSlots w l)) := by
  intro n m hm
  have hq := quiet_withHeap w m
  have hrun : fat32IterateDirectory s (listCallback n) [] (withHeap w m) = _ :=
    iterateDirectory_run (ready_quiet hw hq) (hl.quiet hq) []
  have hbuffer : (withHeap w m).mallocs 0 = true := hm
  rw [if_pos hbuffer, dirSlots_quiet hq, feed_list n _ [] (Nat.zero_le n)] at hrun
  refine ⟨(withHeap w m).spend, ?_⟩
  simp only [fat32ListDirectory, bind_run, get_run, Option.bind_some,
    (ready_quiet hw hq).geometry.mounted, not_true_eq_false, if_false, hrun, ite_run, pure_run,
    Int.lt_irrefl, List.nil_append, List.length_nil, Nat.sub_zero]

theorem listDirectory_some {t u : World} {n : Nat} {files : List FileInfo} (hw : Ready w)
    (hl : DirClusters w s l) (hq : Quiet w t)
    (hrun : fat32ListDirectory s n t = some (some files, u)) :
    files = (listed (reports (dirSlots w l))).take n := by
  obtain ⟨m, rfl⟩ := hq
  have hrun : fat32ListDirectory s n (withHeap w m) = some (some files, u) := hrun
  cases hm : m 0 with
  | true =>
    obtain ⟨v, hlist⟩ := lists_reports hw hl n m hm
    rw [hlist] at hrun
    exact (Option.some.inj (Prod.mk.inj (Option.some.inj hrun)).1).symm
  | false =>
    have hq := quiet_withHeap w m
    have hscan : fat32IterateDirectory s (listCallback n) [] (withHeap w m) = _ :=
      iterateDirectory_run (ready_quiet hw hq) (hl.quiet hq) []
    have hbuffer : ¬ (withHeap w m).mallocs 0 = true := by
      change ¬ m 0 = true
      rw [hm]
      exact Bool.false_ne_true
    rw [if_neg hbuffer] at hscan
    simp only [fat32ListDirectory, bind_run, get_run, Option.bind_some,
      (ready_quiet hw hq).geometry.mounted, not_true_eq_false, if_false, hscan] at hrun
    cases hrun

/-! ## The entry is removed -/

theorem Hit.not_directory (hw : Ready w) (h : Tidy good w (Directory w) owner) (hx : Hit w x p)
    (hfile : x.info.isDirectory = false) (hd : Directory w d) : d ≠ x.info.cluster := by
  rw [hx.info_isDirectory] at hfile
  rw [hx.info_cluster]
  cases hd with
  | root =>
    intro he
    obtain ⟨l, hl, -⟩ := h.chain .root
    have hchained := (hl.inRange _ (List.mem_of_head? hl.head)).isChained hw.geometry
    exact h.notRoot _ p hx.parent (hx.holds (he ▸ hchained)) he.symm
  | sub parent holds isDir =>
    intro he
    obtain ⟨-, -, -, ho⟩ := id holds
    obtain ⟨-, rfl⟩ := h.unique hw.geometry parent hx.parent holds (hx.holds (he ▸ ho.chained)) he
    rw [hfile] at isDir
    cases isDir

theorem other_kept {m : List Nat} (hw : Ready w) (h : Tidy good w (Directory w) owner)
    (hc : Contents w x lc) (hparent : Directory w x.parentDir) (hl : UsedChain w x.parentDir l)
    (hsame : SameGeometry w w') (hfreed : ∀ c, nextOf w' c = if c ∈ lc then 0 else nextOf w c)
    (hbytes : ∀ c, 2 ≤ c → c ∉ l → clusterBuf w' c = clusterBuf w c) (hd : Directory w d)
    (hne : d ≠ x.parentDir) (hnc : d ≠ x.info.cluster) (hm : UsedChain w d m) : Kept w w' d m := by
  have hout := hc.apart hw h (.inl hd) hm.toChainFrom hnc
  have hout' := h.apart hw.geometry (.inl hd) (.inl hparent) hm.toChainFrom hl.toChainFrom hne
  exact .of_bytes hm hsame (fun c hcm => by rw [hfreed, if_neg (hout c hcm)]) fun c hcm =>
    hbytes c (hm.inRange c hcm).1 (hout' c hcm)

/-- **An entry that was given up is removed.** -/
theorem dropEntry_removes {t : World} (hw : Ready w) (h : Tidy Orderly w (Directory w) owner)
    (hx : Hit w x p) (hq : Quiet w t) (hrun : dropEntry x t = some (true, w')) :
    Ready w' ∧ ∃ l lc pre post, Contents w x lc ∧ Removed w x l lc pre p post w' := by
  obtain ⟨lc, hc⟩ := Hit.contents hw h hx
  obtain ⟨l, hl, -⟩ := h.chain hx.parent
  obtain ⟨l', hl', hp⟩ := hx.listed
  obtain rfl := chainFrom_unique hw.geometry hl' hl.toChainFrom
  obtain ⟨pre, post, hslots⟩ := List.append_of_mem hp
  have hdis := hc.apart hw h (.inl hx.parent) hl.toChainFrom hc.ne_parent
  have hwt := ready_quiet hw hq
  obtain ⟨w₁, hrel, hun⟩ := dropEntry_drops hwt (Extended.quiet hl hq).chain
    ((dirSlots_quiet hq _).trans hslots) rfl hx.cluster hx.index (hc.clusters.quiet hq) hdis t rfl
    true w' hrun
  have hun : Unlisted w₁ l' pre p post w' := hun
  have hsame : SameGeometry w w' := (hq.same.trans hrel.same).trans hun.rewritten.same
  have hfreed : ∀ c, nextOf w' c = if c ∈ lc then 0 else nextOf w c := by
    intro c
    rw [hun.rewritten.next, hrel.next]
    obtain ⟨m, rfl⟩ := hq
    rfl
  have hbytes : ∀ c, 2 ≤ c → c ∉ l' → clusterBuf w' c = clusterBuf w c := fun c h2 hn => by
    rw [hun.rewritten.bytes c h2 hn, hrel.bytes, hq.clusterBuf]
  have hkept : UsedChain w' x.parentDir l' :=
    hl.congr hsame fun c hcl => by rw [hfreed, if_neg (hdis c hcl)]
  have hw' : Ready w' := hun.rewritten.ready (hrel.ready hwt)
  have ho : Orderly (pre ++ p :: post) := hslots ▸ h.good _ l' hx.parent hl.toChainFrom
  obtain ⟨a, r, b, hr, hbefore, hafter⟩ := reports_erased ho hx.entry
  rw [← hslots] at hbefore
  rw [← hun.slots] at hafter
  refine ⟨hw', l', lc, pre, post, hc, hsame, hl, hslots, hx.entry, ?_, hc.clusters, fun c hcm => ?_,
    hkept, hun.slots, hfreed, hbytes, fun d hd hne hnc => ?_, a, r, b, hr, hbefore, hafter, ?_, ?_⟩
  · rw [locationOf, hx.cluster, hx.index]
  · rcases hc.chain with ⟨hlc, -⟩ | ⟨-, rfl⟩
    · exact hlc.used c hcm
    · cases hcm
  · rcases hd with hd | hd
    · have hne' : d ≠ x.info.cluster := by
        cases hdir : x.info.isDirectory with
        | true => exact hnc hdir
        | false => exact Hit.not_directory hw h hx hdir hd
      obtain ⟨m, hm, -⟩ := h.chain hd
      have hkeep := other_kept hw h hc hx.parent hl hsame hfreed hbytes hd hne hne' hm
      exact sameListing_of_reports hw hw' (.inl hm.toChainFrom) (.inl hkeep.chain.toChainFrom)
        (by rw [hkeep.slots])
    · exact sameListing_of_reports hw hw' (.inr ⟨hd, rfl⟩) (.inr ⟨hd, rfl⟩)
        (by rw [dirSlots_nil, dirSlots_nil])
  · rw [← hbefore]
    exact lists_reports hw (.inl hl.toChainFrom)
  · rw [← hafter]
    exact lists_reports hw' (.inl hkept.toChainFrom)

theorem Removed.loses (hw : Ready w) (h : Tidy good w (Directory w) owner)
    (hparent : Directory w x.parentDir) (hc : Contents w x lc)
    (hd : CaseDistinct (reports (dirSlots w l))) (hr : Removed w x l lc pre p post w') :
    ∀ d, DirectoryAt w d → d ∉ lc → Loses w w' (locationOf p) d := by
  intro d hdir hout
  rcases hdir with hdir | hdir
  · by_cases hds : d = x.parentDir
    · subst hds
      obtain ⟨a, r, b, rfl, hbefore, hafter, -, -⟩ := hr.remaining
      refine ⟨l, l, .inl hr.directory.toChainFrom, .inl hr.kept.toChainFrom, fun name f h0 hf => ?_⟩
      have hn := nodup_places (w := w) hr.directory.nodup
      rw [hbefore] at hf hd hn
      rw [hafter]
      exact findIn_without (fun q hq => ⟨_, hbefore ▸ hq⟩) h0 hd hn hf
    · obtain ⟨m, hm, -⟩ := h.chain hdir
      have hne : d ≠ x.info.cluster := by
        intro he
        rcases hc.chain with ⟨hlc, -⟩ | ⟨hn, -⟩
        · exact hout (he ▸ List.mem_of_head? hlc.head)
        · have hchained := (hm.inRange _ (List.mem_of_head? hm.head)).isChained hw.geometry
          rw [he, hn] at hchained
          cases hchained
      have hkeep := other_kept hw h hc hparent hr.directory hr.same hr.freed hr.bytes hdir hds hne hm
      refine ⟨m, m, .inl hm.toChainFrom, .inl hkeep.chain.toChainFrom, fun name f _ hf => .inr ?_⟩
      rw [hkeep.slots]
      refine ⟨hf, fun he => ?_⟩
      -- the entry that is found lies in another chain
      obtain ⟨q, hq, -, rfl⟩ := findIn_some hf
      have hqm := (mem_dirSlots.mp (mem_reports hq).1).1
      have hpl : p.cluster ∈ l :=
        (mem_dirSlots.mp (show p ∈ dirSlots w l by rw [hr.slots]; simp)).1
      have hcluster : q.place.cluster = p.cluster := (Location.mk.inj he).1
      exact h.apart hw.geometry (.inl hdir) (.inl hparent) hm.toChainFrom hr.directory.toChainFrom
        hds _ hqm (hcluster ▸ hpl)
  · refine ⟨[], [], .inr ⟨hdir, rfl⟩, .inr ⟨hdir, rfl⟩, fun name f _ hf => ?_⟩
    rw [dirSlots_nil] at hf
    cases hf

/-- **The path of a removed entry leads nowhere.** -/
theorem Removed.lookup_fails {t : World} (hw : Ready w) (hw' : Ready w')
    (h : Tidy good w (Directory w) owner) (hgood : ∀ ps, good ps → Orderly ps) (hx : Hit w x p)
    (hc : Contents w x lc) (hd : CaseDistinct (reports (dirSlots w l)))
    (hr : Removed w x l lc pre p post w') (h0 : 0 ∉ path) (hp : ¬ (path = [] ∨ path = [slash]))
    (hlook : fat32LookupPath path w = some (some x, t)) (m : Nat → Bool) :
    ∃ t', fat32LookupPath path (withHeap w' m) = some (none, t') := by
  have hwork : 0 ∉ path.take maxPath := fun hm => h0 (List.mem_of_mem_take hm)
  have hroot : w'.fs.rootCluster = w.fs.rootCluster := hr.same.fields.2.2.2.2.2.1
  obtain ⟨m₀, hm₀, -⟩ := h.chain .root
  have hout : w.fs.rootCluster ∉ lc := hc.apart hw h (.inl .root) hm₀.toChainFrom hc.ne_root.symm _
    (List.mem_of_head? hm₀.head)
  have hmounted : (withHeap w' m).mounted = true := hw'.geometry.mounted
  rw [fat32LookupPath] at hlook ⊢
  simp only [bind_run, get_run, Option.bind_some, ite_run, hw.geometry.mounted, hmounted,
    not_true_eq_false, if_false, if_neg hp] at hlook ⊢
  change ∃ t', lookupLoop _ _ w'.fs.rootCluster none (withHeap w' m) = _
  rw [hroot]
  exact lookupLoop_loses hw hw' h hgood hx hc (hr.loses hw h hx.parent hc hd) _ _ _ none w t x hwork
    (.inl .root) hout (by simp) (.refl w) hlook hr.place.symm m

/-! ## The operations -/

/-- What a removal that succeeds went through: the path led to an entry, which was
given up. -/
theorem Removal.run_true (hw : Ready w) (h : Tidy Orderly w (Directory w) owner) {op : Removal}
    (h0 : 0 ∉ path) (hrun : op.run path w = some (true, w')) :
    ∃ x t u p, fat32LookupPath path w = some (some x, t) ∧ Hit w x p ∧ op.Removable w x ∧
      ¬ (path = [] ∨ path = [slash]) ∧ Quiet w u ∧ dropEntry x u = some (true, w') := by
  have hgood : ∀ ps, Orderly ps → Orderly ps := fun _ => id
  cases op with
  | remove =>
    simp only [Removal.run, fat32Remove, bind_run, get_run, Option.bind_some, ite_run,
      pure_run] at hrun
    split at hrun
    · cases hrun
    rename_i hguard
    obtain ⟨⟨r, t⟩, hlook, hrest⟩ := Option.bind_eq_some_iff.mp hrun
    obtain ⟨hhit, hq⟩ := lookupPath_hits hw h hgood h0 w (.refl w) r t hlook
    cases r with
    | none => cases hrest
    | some x =>
      simp only [ite_run, pure_run] at hrest
      split at hrest
      · cases hrest
      rename_i hdir
      have hroot : x ≠ rootLookup w := fun he => hdir (he ▸ isDirectory_rootLookup w)
      obtain ⟨p, hx⟩ := (hhit x rfl).resolve_left fun hr => hroot hr.2
      have hfile : x.info.isDirectory = false := by simpa using hdir
      refine ⟨x, t, t, p, hlook, hx, hfile, fun hp => ?_, hq, hrest⟩
      rw [fat32LookupPath] at hlook
      simp only [bind_run, get_run, Option.bind_some, hw.geometry.mounted, not_true_eq_false,
        if_false, ite_run, if_pos hp, pure_run] at hlook
      exact hroot (Option.some.inj (Prod.mk.inj (Option.some.inj hlook)).1).symm
  | rmdir =>
    simp only [Removal.run, fat32RmdirPath, bind_run, get_run, Option.bind_some, ite_run,
      pure_run] at hrun
    split at hrun
    · cases hrun
    rename_i hguard
    split at hrun
    · cases hrun
    rename_i hslash
    have hp : ¬ (path = [] ∨ path = [slash]) := fun hp => hp.elim (fun he => hguard (.inr he)) hslash
    obtain ⟨⟨r, t⟩, hlook, hrest⟩ := Option.bind_eq_some_iff.mp hrun
    obtain ⟨hhit, hq⟩ := lookupPath_hits hw h hgood h0 w (.refl w) r t hlook
    cases r with
    | none => cases hrest
    | some x =>
      obtain ⟨p, hx⟩ := (hhit x rfl).resolve_left fun hr => hp hr.1
      simp only [ite_run, pure_run, bind_run] at hrest
      split at hrest
      · cases hrest
      rename_i hdir
      have hdir : x.info.isDirectory = true := by simpa using hdir
      obtain ⟨⟨files, u⟩, hlist, hrest⟩ := Option.bind_eq_some_iff.mp hrest
      have hqu := listDirectory_run hw h (hx.directory hdir) 1 t hq files u hlist
      cases files with
      | none => cases hrest
      | some files =>
        simp only [ite_run, pure_run] at hrest
        split at hrest
        · cases hrest
        rename_i hnone
        obtain rfl : files = [] := List.eq_nil_of_length_eq_zero (Nat.eq_zero_of_not_pos hnone)
        obtain ⟨lc, hlc⟩ := Tidy.clusters h (hx.directory hdir)
        have hempty := listDirectory_some hw hlc hq hlist
        have hnil : listed (reports (dirSlots w lc)) = [] := by
          rcases List.take_eq_nil_iff.mp hempty.symm with hn | hn
          · cases hn
          · exact hn
        exact ⟨x, t, u, p, hlook, hx, ⟨hdir, lc, hlc, hnil⟩, hp, hqu, hrest⟩

end

theorem caseDistinct_fullVolume {m : Nat → Bool} {s : Nat} {l : List Nat}
    (hs : Directory (fullVolume m) s) (hl : ChainFrom (fullVolume m) s l) :
    CaseDistinct (reports (dirSlots (fullVolume m) l)) := by
  rw [directory_fullVolume hs] at hl
  obtain rfl := chainFrom_unique ready_fullVolume.geometry hl
    (usedChain_fullVolume (.inl rfl)).toChainFrom
  have hone : (reports (dirSlots (fullVolume m) [2])).length = 1 := by
    rw [dirSlots_fullVolume]
    decide +kernel
  obtain ⟨r, hr⟩ := List.length_eq_one_iff.mp hone
  rw [hr]
  exact List.pairwise_singleton _ r

end ContinuumOS.Fat32.Removing
