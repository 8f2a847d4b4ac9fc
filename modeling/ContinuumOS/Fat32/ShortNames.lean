import Mathlib.Logic.Relation
import ContinuumOS.Fat32.Edits

/-! # Short names stay distinct

In every directory the 11-byte names of the live slots stay pairwise distinct,
over any run of `fat32_create`, `fat32_mkdir_path`, `fat32_remove` and
`fat32_rmdir_path` in which the buffer that is needed to mark an entry can be
had once the entry's chain was freed. Where it cannot, the entry stays and leads
to free clusters: they are given to a directory, which is then found through
another directory's chain. -/
namespace ContinuumOS.Fat32.ShortNames
open ContinuumOS.Lib.Effect ContinuumOS.Lib.MapEnd ContinuumOS.Libc.String
open ContinuumOS.Fat32.Volume ContinuumOS.Fat32.Device ContinuumOS.Fat32.Allocation
open ContinuumOS.Fat32.Names ContinuumOS.Fat32.Directory ContinuumOS.Fat32.Scan
open ContinuumOS.Fat32.Paths ContinuumOS.Fat32.Search ContinuumOS.Fat32.Insertion
open ContinuumOS.Fat32.Deletion ContinuumOS.Fat32.Ownership ContinuumOS.Fat32.Entries
open ContinuumOS.Fat32.Edits

/-- The name of a live slot. -/
def liveName (p : Placed) : Option ShortName :=
  if slotKind p.slot = .entry then some (slotName p.slot) else none

/-- The names of the live slots of a directory. -/
def liveNames (ps : List Placed) : List ShortName := ps.filterMap liveName

/-- The live slots of the directory at `s` have different names. -/
def DistinctNames (w : World) (s : Nat) : Prop :=
  ∀ l, ChainFrom w s l → (liveNames (dirSlots w l)).Nodup

/-- Orderly slots whose live names differ. -/
def Distinct (ps : List Placed) : Prop := Orderly ps ∧ (liveNames ps).Nodup

section

variable {ps pre found mid post zeros : List Placed} {p : Placed}

/-! ## Orderly slots -/

/-- What the order of slots depends on. -/
def trait (p : Placed) : Bool × Bool := (notEnd p, isDot p)

theorem orderly_iff : Orderly ps ↔ (ps.map trait).Pairwise
    fun a b => (b.1 = true → a.1 = true) ∧ (b.2 = true → a.2 = true) := by
  rw [List.pairwise_map]
  rfl

theorem isDot_of_not_entry (h : slotKind p.slot ≠ .entry) : isDot p = false :=
  Bool.eq_false_iff.mpr fun hd => h (isDot_iff.mp hd).1

theorem notEnd_of_kind (h : slotKind p.slot ≠ .endOfDirectory) : notEnd p = true := decide_eq_true h

theorem not_entry_of_free (h : slotFree p = true) : slotKind p.slot ≠ .entry := by
  rw [slotFree, isFree, Bool.or_eq_true, beq_iff_eq, beq_iff_eq] at h
  rw [slotKind]
  rcases h with h | h
  · rw [if_pos h]
    decide
  · rw [h, if_neg (by decide), if_pos rfl]
    decide

theorem notEnd_of_used (h : slotFree p = false) : notEnd p = true := by
  rw [slotFree, isFree, Bool.or_eq_false_iff, beq_eq_false_iff_ne] at h
  refine notEnd_of_kind ?_
  rw [slotKind, if_neg h.1]
  split
  · decide
  · split
    · decide
    · split <;> decide

theorem trait_erased (h : isLfnSlot p = true ∨ slotKind p.slot = .entry ∧ isDot p = false) :
    trait (erased p) = trait p := by
  have hkind := slotKind_erased p
  have hp : trait p = (true, false) := by
    rcases h with h | ⟨hk, hd⟩
    · have hk : slotKind p.slot = .longName := by simpa [isLfnSlot] using h
      rw [trait, notEnd_of_kind (by rw [hk]; decide), isDot_of_not_entry (by rw [hk]; decide)]
    · rw [trait, notEnd_of_kind (by rw [hk]; decide), hd]
  rw [hp, trait, notEnd_of_kind (by rw [hkind]; decide), isDot_of_not_entry (by rw [hkind]; decide)]

theorem notEnd_of_pre (h : Orderly pre) (hused : ∀ q, pre.getLast? = some q → slotFree q = false) :
    ∀ q ∈ pre, notEnd q = true := by
  intro q hq
  have hne : pre ≠ [] := List.ne_nil_of_mem hq
  have hlast := notEnd_of_used (hused _ (List.getLast?_eq_some_getLast hne))
  rw [← List.dropLast_append_getLast hne] at h hq
  rcases List.mem_append.mp hq with hq | hq
  · exact ((List.pairwise_append.mp h).2.2 q hq _ (by simp)).1 hlast
  · rw [List.mem_singleton.mp hq]
    exact hlast

theorem PutIn.orderly (h : PutIn pre found mid post p) (ho : Orderly (pre ++ found ++ post)) :
    Orderly (pre ++ (mid ++ [p]) ++ post) := by
  obtain ⟨hfront, hpost, hcross⟩ := List.pairwise_append.mp ho
  have hpre := (List.pairwise_append.mp hfront).1
  obtain ⟨f, rest, rfl⟩ := List.exists_cons_of_ne_nil h.ne_nil
  have hmid : ∀ q ∈ mid ++ [p], notEnd q = true ∧ isDot q = false := by
    intro q hq
    rcases List.mem_append.mp hq with hq | hq
    · have hk := h.mid q hq
      exact ⟨notEnd_of_kind (by rw [hk]; decide), isDot_of_not_entry (by rw [hk]; decide)⟩
    · rw [List.mem_singleton.mp hq]
      exact ⟨h.notEnd, h.notDot⟩
  -- no dot entry comes behind a free slot
  have hdot : ∀ q ∈ post, isDot q = false := fun q hq => Bool.eq_false_iff.mpr fun hd => by
    have hf := (hcross f (by simp) q hq).2 hd
    rw [isDot_of_not_entry (not_entry_of_free (h.free f (by simp)))] at hf
    cases hf
  refine List.pairwise_append.mpr ⟨List.pairwise_append.mpr ⟨hpre, ?_, fun q hq r hr => ?_⟩, hpost,
    fun q hq r hr => ?_⟩
  · exact List.pairwise_of_forall_mem_list fun q hq r hr => ⟨fun _ => (hmid q hq).1, fun hd => by
      rw [(hmid r hr).2] at hd
      cases hd⟩
  · exact ⟨fun _ => notEnd_of_pre hpre h.pre_used q hq, fun hd => by
      rw [(hmid r hr).2] at hd
      cases hd⟩
  · rcases List.mem_append.mp hq with hq | hq
    · exact hcross q (by simp [hq]) r hr
    · exact ⟨fun _ => (hmid q hq).1, fun hd => by
        rw [hdot r hr] at hd
        cases hd⟩

/-- **Edits keep the order of slots.** -/
theorem lasting_orderly : Lasting Orderly where
  orderly _ h := h
  grown ps zeros h hz := by
    have hzero : ∀ q ∈ zeros, notEnd q = false ∧ isDot q = false := fun q hq =>
      ⟨notEnd_zero (hz q hq), isDot_of_not_entry (by rw [hz q hq, slotKind_zero]; decide)⟩
    refine List.pairwise_append.mpr ⟨h, List.pairwise_of_forall_mem_list fun q hq r hr => ?_,
      fun q _ r hr => ?_⟩ <;>
    · rw [(hzero r hr).1, (hzero r hr).2]
      simp
  put pre found mid post p h hput := PutIn.orderly hput h
  erased pre p post h hk hd := by
    have hmap : (mapEnd isLfnSlot erased pre ++ erased p :: post).map trait =
        (pre ++ p :: post).map trait := by
      rw [List.map_append, List.map_append, map_mapEnd fun x _ hx => trait_erased (.inl hx),
        List.map_cons, List.map_cons, trait_erased (.inr ⟨hk, hd⟩)]
    rw [orderly_iff, hmap]
    exact orderly_iff.mp h
  fresh a b zeros ha hb _ _ hz := by
    have hzero : ∀ q ∈ zeros, notEnd q = false ∧ isDot q = false := fun q hq =>
      ⟨notEnd_zero (hz q hq), isDot_of_not_entry (by rw [hz q hq, slotKind_zero]; decide)⟩
    have hend : ∀ {q}, isDot q = true → notEnd q = true := fun hd =>
      notEnd_of_kind (by rw [(isDot_iff.mp hd).1]; decide)
    refine List.pairwise_cons.mpr ⟨fun q _ => ⟨fun _ => hend ha, fun _ => ha⟩,
      List.pairwise_cons.mpr ⟨fun q _ => ⟨fun _ => hend hb, fun _ => hb⟩,
        List.pairwise_of_forall_mem_list fun q hq r hr => ?_⟩⟩
    rw [(hzero r hr).1, (hzero r hr).2]
    simp

/-! ## Distinct names -/

theorem liveName_of_not_entry (h : slotKind p.slot ≠ .entry) : liveName p = none := if_neg h

theorem liveNames_append (a b : List Placed) : liveNames (a ++ b) = liveNames a ++ liveNames b :=
  List.filterMap_append

theorem liveNames_eq_nil (h : ∀ q ∈ ps, slotKind q.slot ≠ .entry) : liveNames ps = [] :=
  List.filterMap_eq_nil_iff.mpr fun q hq => liveName_of_not_entry (h q hq)

theorem names_reportsOf : ∀ (ps : List Placed) (st : Lfn),
    (reportsOf st ps).map (fun r => slotName r.place.slot) = liveNames ps
  | [], st => rfl
  | p :: ps, st => by
    have ih := names_reportsOf ps (lfnAfter st p.slot)
    rw [reportsOf, liveNames, List.filterMap_cons, liveName]
    split
    · rw [List.map_cons, ih]
      rfl
    · exact ih

/-- **A scan meets every live slot** of orderly slots. -/
theorem names_reports : ∀ {ps : List Placed}, Orderly ps →
    (reports ps).map (fun r => slotName r.place.slot) = liveNames ps := by
  intro ps h
  rw [reports, names_reportsOf]
  induction ps with
  | nil => rfl
  | cons p ps ih =>
    obtain ⟨hp, h⟩ := List.pairwise_cons.mp h
    rw [List.takeWhile_cons]
    split
    · have ih := ih h
      rw [liveNames] at ih ⊢
      rw [List.filterMap_cons, ih]
      rfl
    · rename_i hend
      have hnone : ∀ q ∈ p :: ps, slotKind q.slot ≠ .entry := by
        intro q hq hk
        have hq' : notEnd q = true := notEnd_of_kind (by rw [hk]; decide)
        rcases List.mem_cons.mp hq with rfl | hq
        · exact hend hq'
        · exact hend ((hp q hq).1 hq')
      exact (liveNames_eq_nil hnone).symm

/-- **A new name is the name of no live slot.** -/
theorem PutIn.new (h : PutIn pre found mid post p) (ho : Orderly (pre ++ found ++ post)) :
    slotName p.slot ∉ liveNames (pre ++ found ++ post) := by
  rw [← names_reports ho]
  intro hm
  obtain ⟨r, hr, he⟩ := List.mem_map.mp hm
  exact h.unused r hr he

theorem PutIn.distinct (h : PutIn pre found mid post p) (hd : Distinct (pre ++ found ++ post)) :
    (liveNames (pre ++ (mid ++ [p]) ++ post)).Nodup := by
  have hnew := PutIn.new h hd.1
  have hnames := hd.2
  have hfound : liveNames found = [] := liveNames_eq_nil fun q hq => not_entry_of_free (h.free q hq)
  have hmid : liveNames mid = [] := liveNames_eq_nil fun q hq => by
    rw [h.mid q hq]
    decide
  rw [liveNames_append, liveNames_append, hfound, List.append_nil] at hnew hnames
  rw [liveNames_append, liveNames_append, liveNames_append, hmid, List.nil_append, List.append_assoc]
  by_cases hk : slotKind p.slot = .entry
  · have hp : liveNames [p] = [slotName p.slot] := by simp [liveNames, liveName, hk]
    rw [hp]
    exact List.nodup_middle.mpr (List.nodup_cons.mpr ⟨hnew, hnames⟩)
  · have hp : liveNames [p] = [] := liveNames_eq_nil fun q hq => by
      rw [List.mem_singleton.mp hq]
      exact hk
    rw [hp]
    exact hnames

theorem liveNames_erased (pre post : List Placed) (p : Placed) :
    (liveNames (mapEnd isLfnSlot erased pre ++ erased p :: post)).Sublist
      (liveNames (pre ++ p :: post)) := by
  have hgone : ∀ q, liveName (erased q) = none := fun q =>
    liveName_of_not_entry (by rw [slotKind_erased]; decide)
  have hpre : liveNames (mapEnd isLfnSlot erased pre) = liveNames pre := by
    have hmap := map_mapEnd (p := isLfnSlot) (f := erased) (a := pre) (g := liveName)
      fun x _ hx => by
        have hk : slotKind x.slot = .longName := by simpa [isLfnSlot] using hx
        rw [hgone, liveName_of_not_entry (by rw [hk]; decide)]
    have hid : ∀ qs : List Placed, liveNames qs = (qs.map liveName).filterMap id := fun qs => by
      rw [List.filterMap_map]
      rfl
    rw [hid, hid, hmap]
  rw [liveNames_append, liveNames_append, hpre]
  refine List.Sublist.append_left ?_ _
  rw [liveNames, liveNames, List.filterMap_cons, hgone]
  exact (List.sublist_cons_self p post).filterMap liveName

/-- **Edits keep the names distinct.** -/
theorem lasting_distinct : Lasting Distinct where
  orderly _ h := h.1
  grown ps zeros h hz := by
    refine ⟨lasting_orderly.grown ps zeros h.1 hz, ?_⟩
    have hnone : liveNames zeros = [] := liveNames_eq_nil fun q hq => by
      rw [hz q hq, slotKind_zero]
      decide
    rw [liveNames_append, hnone, List.append_nil]
    exact h.2
  put pre found mid post p h hput := ⟨PutIn.orderly hput h.1, PutIn.distinct hput h⟩
  erased pre p post h hk hd :=
    ⟨lasting_orderly.erased pre p post h.1 hk hd, h.2.sublist (liveNames_erased pre post p)⟩
  fresh a b zeros ha hb hna hnb hz := by
    refine ⟨lasting_orderly.fresh a b zeros ha hb hna hnb hz, ?_⟩
    have hnone : liveNames zeros = [] := liveNames_eq_nil fun q hq => by
      rw [hz q hq, slotKind_zero]
      decide
    have hnames : liveNames (a :: b :: zeros) = [dotName, dotDotName] := by
      have ha' : liveName a = some dotName := by rw [liveName, if_pos (isDot_iff.mp ha).1, hna]
      have hb' : liveName b = some dotDotName := by rw [liveName, if_pos (isDot_iff.mp hb).1, hnb]
      rw [liveNames] at hnone ⊢
      rw [List.filterMap_cons, ha', List.filterMap_cons, hb', hnone]
    rw [hnames]
    decide

end

/-! ## Runs of edits -/

/-- A call on a path. -/
inductive Edit
  | create (path : CStr)
  | mkdir (path : CStr)
  | remove (path : CStr)
  | rmdir (path : CStr)

def Edit.path : Edit → CStr
  | .create path | .mkdir path | .remove path | .rmdir path => path

def Edit.run : Edit → Fat Bool
  | .create path => fat32Create path
  | .mkdir path => fat32MkdirPath path
  | .remove path => fat32Remove path
  | .rmdir path => fat32RmdirPath path

/-- The heap has a buffer when an entry with a chain comes to be marked: a file
that is removed, or a directory that was found empty. -/
def HasMemory (w : World) : Edit → Prop
  | .create _ | .mkdir _ => True
  | .remove path => ∀ x t, fat32LookupPath path w = some (some x, t) →
      x.info.isDirectory = false → isChained x.info.cluster = true → t.mallocs 0 = true
  | .rmdir path => ∀ x t u, path ≠ [] → path ≠ [slash] →
      fat32LookupPath path w = some (some x, t) → x.info.isDirectory = true →
      fat32ListDirectory x.info.cluster 1 t = some (some [], u) →
      isChained x.info.cluster = true → u.mallocs 0 = true

/-- A call that is allowed, with any path. A C string holds no NUL. -/
def Step (allowed : World → Edit → Prop) (w w' : World) : Prop :=
  ∃ e ok, 0 ∉ e.path ∧ allowed w e ∧ e.run w = some (ok, w')

section

variable {good : List Placed → Prop} {w w' w₀ : World}

/-- **One call keeps the volume in order.** -/
theorem Step.inOrder (hk : Lasting good) (hw : Ready w) (h : InOrder good w)
    (hstep : Step HasMemory w w') : Ready w' ∧ InOrder good w' := by
  obtain ⟨e, ok, h0, hmem, hrun⟩ := hstep
  cases e with
  | create path => exact create_inOrder hk hw h h0 w (.refl w) ok w' hrun
  | mkdir path => exact mkdirPath_inOrder hk hw h h0 w (.refl w) ok w' hrun
  | remove path => exact remove_inOrder hk hw h h0 hmem hrun
  | rmdir path => exact rmdirPath_inOrder hk hw h h0 hmem hrun

theorem run_inOrder (hk : Lasting good) (hw : Ready w₀) (h : InOrder good w₀)
    (hrun : Relation.ReflTransGen (Step HasMemory) w₀ w) : Ready w ∧ InOrder good w := by
  induction hrun with
  | refl => exact ⟨hw, h⟩
  | tail _ hstep ih => exact hstep.inOrder hk ih.1 ih.2

end

/-- **Short names stay distinct.** On a well-formed volume where no two live
slots of a directory have the same name, none have after any calls. -/
theorem short_names_stay_distinct {w₀ w : World} (hw : Ready w₀) (h : WellFormed w₀)
    (hn : ∀ s, Directory w₀ s → DistinctNames w₀ s)
    (hrun : Relation.ReflTransGen (Step HasMemory) w₀ w) :
    WellFormed w ∧ ∀ s, Directory w s → DistinctNames w s := by
  obtain ⟨owner, h⟩ := h
  have hstart : InOrder Distinct w₀ := ⟨owner, h.root, h.chains, h.sub, h.notRoot, h.unshared,
    fun s l hs hl => ⟨h.good s l hs hl, hn s hs l hl⟩⟩
  obtain ⟨-, owner', h'⟩ := run_inOrder lasting_distinct hw hstart hrun
  exact ⟨⟨owner', h'.root, h'.chains, h'.sub, h'.notRoot, h'.unshared,
    fun s l hs hl => (h'.good s l hs hl).1⟩, fun s hs l hl => (h'.good s l hs hl).2⟩

/-! ## A full root directory -/

/-- `F` -/
def nameF : ShortName := .ofParts [0x46] []

/-- The slot of the file `F` with cluster 3. -/
def slotF : Buf := dirEntry nameF attrArchive 3 0

/-- A volume label. -/
def slotLabel : Buf := dirEntry (.ofParts [0x4C] []) attrVolumeId 0 0

/-- The slots of a root directory with no free slot. -/
def fullSlots : List Buf := slotF :: List.replicate 15 slotLabel

/-- The root directory is full and holds the file `F`. -/
def fullVolume (mallocs : Nat → Bool) : World :=
  { ((rootVolume fullSlots).setFat 2 endCluster).setFat 3 endCluster with mallocs := mallocs }

section

variable {mallocs : Nat → Bool} {s k c : Nat} {p : Placed}

theorem ready_fullVolume : Ready (fullVolume mallocs) where
  geometry := SameGeometry.geometry (w := rootVolume fullSlots) ⟨rfl, rfl, rfl, rfl⟩
    (geometry_rootVolume fullSlots)
  noFaults _ := rfl
  flushable := by
    change 1 % 256 ≠ 0
    decide

theorem usedChain_fullVolume (hc : c = 2 ∨ c = 3) : UsedChain (fullVolume mallocs) c [c] := by
  have hnext : nextOf (fullVolume mallocs) c = endCluster := by
    rcases hc with rfl | rfl <;> rfl
  refine ⟨⟨rfl, ⟨endCluster, not_isChained_endCluster, hnext, trivial⟩, fun d hd => ?_, by simp⟩,
    fun d hd => ?_⟩
  · rw [List.mem_singleton.mp hd]
    rcases hc with rfl | rfl <;> exact ⟨by decide, show _ < 10 by decide⟩
  · rw [List.mem_singleton.mp hd, hnext]
    exact endCluster_ne_zero

theorem dirSlots_fullVolume : dirSlots (fullVolume mallocs) [2] =
    (List.range' 0 16).map fun i => ⟨2, i, fullSlots.getD i fun _ => 0⟩ := by
  have hout : ∀ e ∈ fullSlots, ∀ i, slotSize ≤ i → e i = 0 := by
    intro e he
    rcases List.mem_cons.mp he with rfl | he
    · exact dirEntry_outside
    · rw [List.eq_of_mem_replicate he]
      exact dirEntry_outside
  exact dirSlots_rootVolume hout

theorem mem_fullVolume (hp : p ∈ dirSlots (fullVolume mallocs) [2]) :
    p = ⟨2, 0, slotF⟩ ∨ p.slot = slotLabel := by
  rw [dirSlots_fullVolume] at hp
  obtain ⟨i, hi, rfl⟩ := List.mem_map.mp hp
  have hlt : i < 16 := by
    have := (List.mem_range'_1.mp hi).2
    omega
  cases i with
  | zero => exact .inl rfl
  | succ i =>
    right
    have hi : i < 15 := by omega
    have hget : (List.replicate 15 slotLabel)[i]? = some slotLabel := List.getElem?_replicate_of_lt hi
    change (List.replicate 15 slotLabel).getD i _ = slotLabel
    rw [List.getD_eq_getElem?_getD, hget, Option.getD_some]

theorem slotKind_slotLabel : slotKind slotLabel = .volumeId := rfl

theorem holds_fullVolume (hp : Holds (fullVolume mallocs) 2 p) : p = ⟨2, 0, slotF⟩ := by
  obtain ⟨hp, ho⟩ := (holds_iff ready_fullVolume.geometry
    (usedChain_fullVolume (.inl rfl)).toChainFrom).mp hp
  refine (mem_fullVolume hp).resolve_right fun he => ?_
  have hk := ho.entry
  rw [he, slotKind_slotLabel] at hk
  cases hk

theorem directory_fullVolume (hs : Directory (fullVolume mallocs) s) : s = 2 := by
  induction hs with
  | root => rfl
  | sub _ holds isDir ih =>
    subst ih
    rw [holds_fullVolume holds] at isDir
    exact absurd isDir (by decide)

theorem orderly_fullVolume : Orderly (dirSlots (fullVolume mallocs) [2]) := by
  have hall : ∀ q ∈ dirSlots (fullVolume mallocs) [2], notEnd q = true ∧ isDot q = false := by
    intro q hq
    rcases mem_fullVolume hq with rfl | he
    · decide
    · have hk : slotKind q.slot = .volumeId := by rw [he, slotKind_slotLabel]
      exact ⟨notEnd_of_kind (by rw [hk]; decide), isDot_of_not_entry (by rw [hk]; decide)⟩
  exact List.pairwise_of_forall_mem_list fun q hq r hr => ⟨fun _ => (hall q hq).1, fun hd => by
    rw [(hall r hr).2] at hd
    cases hd⟩

theorem wellFormed_fullVolume : WellFormed (fullVolume mallocs) := by
  have hcluster : slotCluster slotF = 3 := slotCluster_dirEntry (by decide)
  refine ⟨id, .root, fun k hk => ?_, fun s p hs hp hd => ?_, fun s p hs hp he => ?_,
    fun s s' p q hs hs' hp hq _ => ?_, fun s l hs hl => ?_⟩
  · refine ⟨[k], usedChain_fullVolume ?_, fun c hc => List.mem_singleton.mp hc⟩
    rcases hk with hk | ⟨s, p, hs, hp, rfl⟩
    · exact .inl (directory_fullVolume hk)
    · rw [directory_fullVolume hs] at hp
      rw [holds_fullVolume hp]
      exact .inr hcluster
  · exact .sub hs hp hd
  · rw [directory_fullVolume hs] at hp
    rw [holds_fullVolume hp, hcluster] at he
    cases he
  · rw [directory_fullVolume hs] at hp
    rw [directory_fullVolume hs'] at hq
    rw [holds_fullVolume hp, holds_fullVolume hq]
  · rw [directory_fullVolume hs] at hl
    rw [chainFrom_unique ready_fullVolume.geometry hl (usedChain_fullVolume (.inl rfl)).toChainFrom]
    exact orderly_fullVolume

theorem distinctNames_fullVolume (hs : Directory (fullVolume mallocs) s) :
    DistinctNames (fullVolume mallocs) s := by
  intro l hl
  rw [directory_fullVolume hs] at hl
  rw [chainFrom_unique ready_fullVolume.geometry hl (usedChain_fullVolume (.inl rfl)).toChainFrom,
    dirSlots_fullVolume]
  decide +kernel

end

/-! ## A directory in the last clusters -/

/-- The root directory has the directory `D`, whose first cluster 8 is full; its
second cluster 9 has the file `F~1`. -/
def nestedSlots (c : Nat) : List Buf :=
  if c = 2 then [dirEntry (.ofParts [0x44] []) attrDirectory 8 0]
  else if c = 8 then
    dirEntry dotName attrDirectory 8 0 :: dirEntry dotDotName attrDirectory 2 0 ::
      List.replicate 14 slotLabel
  else if c = 9 then [dirEntry (.ofParts [0x46, 0x7E, 0x31] []) attrArchive 0 0]
  else []

/-- A data area of the clusters 2 to 9, of which only 7 is free. -/
def nestedVolume (total : Nat) : World :=
  let w := smallVolume (fun c => if c = 7 then 0 else if c = 8 then 9 else endCluster) fun _ => true
  { w with
    fs := { w.fs with totalClusters := total }
    sectors := fun _ a => if 1536 ≤ a then
      (nestedSlots (a / 512 - 1)).getD (a % 512 / 32) (fun _ => 0) (a % 32) else 0 }

theorem ready_nestedVolume : Ready (nestedVolume 10) :=
  Ready.of_same (w := smallVolume (fun _ => 0) fun _ => true) (ready_smallVolume _ _)
    ⟨rfl, rfl, rfl, rfl⟩ rfl

instance (p : Placed) : Decidable (Owning p) :=
  decidable_of_iff
    (slotKind p.slot = .entry ∧ isDot p = false ∧ isChained (slotCluster p.slot) = true)
    ⟨fun ⟨h₁, h₂, h₃⟩ => ⟨h₁, h₂, h₃⟩, fun ⟨h₁, h₂, h₃⟩ => ⟨h₁, h₂, h₃⟩⟩

theorem nestedVolume_values :
    (∀ c ∈ [2, 8, 9], InRange (nestedVolume 10) c ∧ nextOf (nestedVolume 10) c ≠ 0) ∧
    (∀ p ∈ dirSlots (nestedVolume 10) [2], Owning p →
      slotCluster p.slot = 8 ∧ locationOf p = ⟨2, 0⟩) ∧
    (∀ p ∈ dirSlots (nestedVolume 10) [8, 9], ¬ Owning p) ∧
    Orderly (dirSlots (nestedVolume 10) [2]) ∧ Orderly (dirSlots (nestedVolume 10) [8, 9]) := by
  unfold Orderly
  decide +kernel

theorem usedChain_nestedRoot : UsedChain (nestedVolume 10) 2 [2] := by
  have hin := nestedVolume_values.1 2 List.mem_cons_self
  refine ⟨⟨rfl, ⟨endCluster, not_isChained_endCluster, rfl, trivial⟩, fun c hc => ?_, by simp⟩,
    fun c hc => ?_⟩
  · exact List.mem_singleton.mp hc ▸ hin.1
  · exact List.mem_singleton.mp hc ▸ hin.2

theorem usedChain_nestedDirectory : UsedChain (nestedVolume 10) 8 [8, 9] := by
  have hin := fun c hc => nestedVolume_values.1 c (List.mem_cons_of_mem 2 hc)
  exact ⟨⟨rfl, ⟨endCluster, not_isChained_endCluster, rfl, rfl, trivial⟩, fun c hc => (hin c hc).1,
    by simp⟩, fun c hc => (hin c hc).2⟩

section

variable {s : Nat} {p : Placed}

theorem holds_nestedRoot (hp : Holds (nestedVolume 10) 2 p) :
    slotCluster p.slot = 8 ∧ locationOf p = ⟨2, 0⟩ := by
  obtain ⟨hp, ho⟩ := (holds_iff ready_nestedVolume.geometry usedChain_nestedRoot.toChainFrom).mp hp
  exact nestedVolume_values.2.1 p hp ho

theorem not_holds_nestedDirectory : ¬ Holds (nestedVolume 10) 8 p := by
  intro hp
  obtain ⟨hp, ho⟩ :=
    (holds_iff ready_nestedVolume.geometry usedChain_nestedDirectory.toChainFrom).mp hp
  exact nestedVolume_values.2.2.1 p hp ho

theorem directory_nestedVolume (hs : Directory (nestedVolume 10) s) : s = 2 ∨ s = 8 := by
  induction hs with
  | root => exact .inl rfl
  | sub _ holds _ ih =>
    obtain rfl | rfl := ih
    · exact .inr (holds_nestedRoot holds).1
    · exact absurd holds not_holds_nestedDirectory

theorem holds_nestedVolume (hs : Directory (nestedVolume 10) s) (hp : Holds (nestedVolume 10) s p) :
    slotCluster p.slot = 8 ∧ locationOf p = ⟨2, 0⟩ := by
  obtain rfl | rfl := directory_nestedVolume hs
  · exact holds_nestedRoot hp
  · exact absurd hp not_holds_nestedDirectory

theorem wellFormed_nestedVolume : WellFormed (nestedVolume 10) := by
  refine ⟨fun c => if c = 2 then 2 else 8, .root, fun k hk => ?_, fun s p hs hp hd => .sub hs hp hd,
    fun s p hs hp he => ?_, fun s s' p q hs hs' hp hq _ => ?_, fun s l hs hl => ?_⟩
  · have hk : k = 2 ∨ k = 8 := by
      obtain hk | ⟨s, p, hs, hp, rfl⟩ := hk
      · exact directory_nestedVolume hk
      · exact .inr (holds_nestedVolume hs hp).1
    obtain rfl | rfl := hk
    · exact ⟨_, usedChain_nestedRoot, by decide⟩
    · exact ⟨_, usedChain_nestedDirectory, by decide⟩
  · rw [(holds_nestedVolume hs hp).1] at he
    cases he
  · rw [(holds_nestedVolume hs hp).2, (holds_nestedVolume hs' hq).2]
  · have horderly := nestedVolume_values.2.2.2
    obtain rfl | rfl := directory_nestedVolume hs
    · rw [chainFrom_unique ready_nestedVolume.geometry hl usedChain_nestedRoot.toChainFrom]
      exact horderly.1
    · rw [chainFrom_unique ready_nestedVolume.geometry hl usedChain_nestedDirectory.toChainFrom]
      exact horderly.2

end

/-- `/F` -/
def pathF : CStr := [slash, 0x46]

/-- `/D` -/
def pathD : CStr := [slash, 0x44]

/-- `/N` -/
def pathN : CStr := [slash, 0x4E]

/-- `/H` -/
def pathH : CStr := [slash, 0x48]

/-- `/H/H` -/
def pathHH : CStr := [slash, 0x48, slash, 0x48]

/-- The file is removed and another one made in its slot. -/
theorem short_names_stay_distinct_example : ∃ w₁ w₂,
    fat32Remove pathF (fullVolume fun _ => true) = some (true, w₁) ∧
    fat32Create pathN w₁ = some (true, w₂) ∧
    WellFormed w₂ ∧ ∀ s, Directory w₂ s → DistinctNames w₂ s := by
  have hrun : ((do
      let a ← fat32Remove pathF
      let b ← fat32Create pathN
      return decide (a = true ∧ b = true) : Fat Bool) (fullVolume fun _ => true)).map
        (fun r => r.1) = some true := by decide +kernel
  have hlook : (fat32LookupPath pathF (fullVolume fun _ => true)).map (fun r => r.2.mallocs 0) =
      some true := by decide +kernel
  simp only [bind_run, Option.map_eq_some_iff, Option.bind_eq_some_iff, pure_run] at hrun
  obtain ⟨_, ⟨⟨a, w₁⟩, h₁, ⟨b, w₂⟩, h₂, hlast⟩, hall⟩ := hrun
  obtain rfl := Option.some.inj hlast
  obtain ⟨rfl, rfl⟩ := of_decide_eq_true hall
  have hmem : HasMemory (fullVolume fun _ => true) (.remove pathF) := by
    intro x t ht _ _
    rw [ht] at hlook
    exact Option.some.inj hlook
  have hsteps : Relation.ReflTransGen (Step HasMemory) (fullVolume fun _ => true) w₂ :=
    .tail (.single ⟨.remove pathF, true, by decide, hmem, h₁⟩)
      ⟨.create pathN, true, by decide, trivial, h₂⟩
  exact ⟨w₁, w₂, h₁, h₂, short_names_stay_distinct ready_fullVolume wellFormed_fullVolume
    (fun s hs => distinctNames_fullVolume hs) hsteps⟩

/-- One call of `kmalloc` fails, in `fat32_mark_entry_deleted`: the slot of `F`
stays and its cluster 3 is free. The root directory takes it, the second call of
`fat32_remove` frees it again, and then it holds the directory `H`, in which a file
`H` is made: the chain of the root directory has two entries `H`. -/
theorem unmarked_entry_repeats_name : ∃ w,
    Relation.ReflTransGen (Step fun _ _ => True) (fullVolume fun n => n ≠ 1) w ∧
    Ready (fullVolume fun n => n ≠ 1) ∧ WellFormed (fullVolume fun n => n ≠ 1) ∧
    (∀ s, Directory (fullVolume fun n => n ≠ 1) s → DistinctNames (fullVolume fun n => n ≠ 1) s) ∧
    Directory w 2 ∧ ¬ DistinctNames w 2 := by
  have hrun : ((do
      let _ ← fat32Remove pathF
      let _ ← fat32Create pathN
      let _ ← fat32Remove pathF
      let _ ← fat32MkdirPath pathH
      let _ ← fat32Create pathHH
      let w ← Eff.get
      return decide (nextOf w 2 = 3 ∧ nextOf w 3 = endCluster ∧ w.fs.rootCluster = 2 ∧
        w.fs.totalClusters = 10 ∧ ¬ (liveNames (dirSlots w [2, 3])).Nodup) : Fat Bool)
        (fullVolume fun n => n ≠ 1)).map (fun r => r.1) = some true := by decide +kernel
  simp only [bind_run, get_run, Option.bind_some, Option.map_eq_some_iff, Option.bind_eq_some_iff,
    pure_run] at hrun
  obtain ⟨_, ⟨⟨a, w₁⟩, h₁, ⟨b, w₂⟩, h₂, ⟨c, w₃⟩, h₃, ⟨d, w₄⟩, h₄, ⟨e, w⟩, h₅, hlast⟩, hall⟩ := hrun
  obtain rfl := Option.some.inj hlast
  obtain ⟨hnext, hend, hroot, htotal, htwice⟩ := of_decide_eq_true hall
  have hsteps : Relation.ReflTransGen (Step fun _ _ => True) (fullVolume fun n => n ≠ 1) w :=
    .tail (.tail (.tail (.tail (.single ⟨.remove pathF, a, by decide, trivial, h₁⟩)
      ⟨.create pathN, b, by decide, trivial, h₂⟩) ⟨.remove pathF, c, by decide, trivial, h₃⟩)
      ⟨.mkdir pathH, d, by decide, trivial, h₄⟩) ⟨.create pathHH, e, by decide, trivial, h₅⟩
  have hchain : ChainFrom w 2 [2, 3] := by
    refine ⟨rfl, ⟨endCluster, not_isChained_endCluster, hnext, hend, trivial⟩, fun c hc => ?_, by simp⟩
    rcases List.mem_pair.mp hc with rfl | rfl <;>
      exact ⟨by decide, by rw [htotal]; decide⟩
  exact ⟨w, hsteps, ready_fullVolume, wellFormed_fullVolume, fun s hs => distinctNames_fullVolume hs,
    hroot ▸ .root, fun h => htwice (h [2, 3] hchain)⟩

end ContinuumOS.Fat32.ShortNames
