import ContinuumOS.Fat32.LongName
import ContinuumOS.Fat32.Search
import ContinuumOS.Lib.Scanning

/-! # New slots in a directory

What `fat32_create` and `fat32_mkdir_path` do to the directory they work on,
also when the heap gives out on the way: the short name that is chosen is new
there, the directory is extended by empty clusters, and the slots are written
to the first free run that is long enough. -/
namespace ContinuumOS.Fat32.Insertion
open ContinuumOS.Lib.Effect ContinuumOS.Lib.Memory ContinuumOS.Lib.Chains ContinuumOS.Lib.FirstFit
open ContinuumOS.Libc.String
open ContinuumOS.Fat32.Volume ContinuumOS.Fat32.Device ContinuumOS.Fat32.Allocation
open ContinuumOS.Fat32.Names ContinuumOS.Fat32.Directory ContinuumOS.Fat32.Scan
open ContinuumOS.Fat32.Paths ContinuumOS.Fat32.Search ContinuumOS.Fat32.Aliases
open ContinuumOS.Fat32.LongName

section

variable {w w' w'' : World} {s c : Nat} {l l' l'' : List Nat}

/-! ## Scans that use up an answer of the heap -/

/-- The clusters of a directory; one whose start is no cluster has none. -/
def DirClusters (w : World) (s : Nat) (l : List Nat) : Prop :=
  ChainFrom w s l ∨ isChained s = false ∧ l = []

theorem chainFrom_quiet (h : ChainFrom w s l) (hq : Quiet w w') : ChainFrom w' s l := by
  obtain ⟨m, rfl⟩ := hq
  exact ⟨h.head, h.linked, h.inRange, h.nodup⟩

theorem DirClusters.quiet (h : DirClusters w s l) (hq : Quiet w w') : DirClusters w' s l :=
  h.imp_left fun h => chainFrom_quiet h hq

theorem dirSlots_quiet (hq : Quiet w w') (l : List Nat) : dirSlots w' l = dirSlots w l := by
  obtain ⟨m, rfl⟩ := hq
  rfl

theorem ready_quiet (h : Ready w) (hq : Quiet w w') : Ready w' := by
  obtain ⟨m, rfl⟩ := hq
  exact h.of_same ⟨rfl, rfl, rfl, rfl⟩ rfl

/-- A scan runs the callback over the entries, if the heap has a buffer for it. -/
theorem iterateDirectory_run {κ : Type} {callback : Callback κ} (hw : Ready w)
    (h : DirClusters w s l) (context : κ) :
    fat32IterateDirectory s callback context w =
      some (if w.mallocs 0 = true then outcome (feed callback (reports (dirSlots w l)) context)
        else (-1, context), w.spend) := by
  have hsize : clusterSize w ≠ 0 := Nat.pos_iff_ne_zero.mp hw.geometry.clusterSize_pos
  have hq : Quiet w w.spend := (Quiet.refl w).spend
  have g := (ready_quiet hw hq).geometry
  have nf := (ready_quiet hw hq).noFaults
  simp only [fat32IterateDirectory, bind_run, get_run, Option.bind_some, kmalloc, hsize, if_false,
    ite_run, pure_run]
  split
  · rcases h with h | ⟨hs, rfl⟩
    · obtain ⟨z, hz, hl⟩ := (chainFrom_quiet h hq).linked
      have hloop := iterateLoop_eq callback g nf hz l walkLimit Lfn.init context hl
        (chainFrom_quiet h hq).inRange ((chainFrom_quiet h hq).length_le g)
      rw [h.headD] at hloop
      exact hloop
    · exact iterateLoop_eq callback g nf hs [] walkLimit Lfn.init context trivial (by simp)
        (Nat.zero_le _)
  · rfl

theorem findEntry_run (hw : Ready w) (h : DirClusters w s l) {name : CStr} (hn : name ≠ []) :
    fat32FindEntryInDirectory s name w =
      some (if w.mallocs 0 = true then findIn (reports (dirSlots w l)) name else none, w.spend) := by
  simp only [fat32FindEntryInDirectory, bind_run, get_run, Option.bind_some, hw.geometry.mounted, hn,
    not_true_eq_false, or_self, if_false, iterateDirectory_run hw h, feed_find, ite_run, pure_run,
    findIn]
  split
  · cases (reports (dirSlots w l)).find? fun r => answersTo r.info name <;> rfl
  · rfl

theorem shortNameExists_run (hw : Ready w) (h : DirClusters w s l) (name : ShortName) :
    fat32ShortNameExists s name w = some (if w.mallocs 0 = true then
      some ((reports (dirSlots w l)).any fun r => slotName r.place.slot = name) else none,
      w.spend) := by
  simp only [fat32ShortNameExists, bind_run, Option.bind_some, iterateDirectory_run hw h, feed_exists,
    ite_run, pure_run]
  split <;> rfl

/-! ## The short name is new -/

/-- No entry of the slots has the name. -/
def Unused (ps : List Placed) (short : ShortName) : Prop :=
  ∀ r ∈ reports ps, slotName r.place.slot ≠ short

theorem shortNameExists_unused (hw : Ready w) (h : DirClusters w s l) (name : ShortName) :
    Triple (Quiet w) (fat32ShortNameExists s name) fun r t =>
      (r = some false → Unused (dirSlots w l) name) ∧ Quiet w t := by
  intro t hq a t' hr
  rw [shortNameExists_run (ready_quiet hw hq) (h.quiet hq), dirSlots_quiet hq] at hr
  obtain ⟨rfl, rfl⟩ := Prod.mk.inj (Option.some.inj hr)
  refine ⟨fun hfalse r hr => ?_, hq.spend⟩
  split at hfalse
  · simpa using List.any_eq_false.mp (Option.some.inj hfalse) r hr
  · cases hfalse

theorem uniqueLoop_unused (hw : Ready w) (h : DirClusters w s l) (base ext : CStr) :
    ∀ left suffix : Nat, Triple (Quiet w) (uniqueLoop s base ext left suffix) fun r t =>
      (∀ short, r = some short → Unused (dirSlots w l) short) ∧ Quiet w t
  | 0, suffix => .pure fun t hq => ⟨by simp, hq⟩
  | left + 1, suffix => by
    rw [uniqueLoop]
    refine .ite (fun _ => .pure fun t hq => ⟨by simp, hq⟩) fun _ => ?_
    refine .bind (shortNameExists_unused hw h _) fun r => ?_
    obtain _ | _ | _ := r
    · exact .pure fun t ht => ⟨by simp, ht.2⟩
    · refine .pure fun t ht => ⟨fun short hs => ?_, ht.2⟩
      cases hs
      exact ht.1 rfl
    · exact (uniqueLoop_unused hw h base ext left (suffix + 1)).pre fun t ht => ht.2

/-- A short name that may be written for `name`: it is the form of the name or an
alias, it is new, and it stands for the whole name when no long name goes with it. -/
structure Suited (ps : List Placed) (name : CStr) (short : ShortName) (lfn : Bool) : Prop where
  chosen : Chosen name short
  unused : Unused ps short
  whole : lfn = false → fat32ShortNameToString short = name

theorem prepareShortName_suited (hw : Ready w) (h : DirClusters w s l) (name : CStr) :
    Triple (Quiet w) (fat32PrepareShortName s name) fun r t =>
      (∀ short lfn, r = some (short, lfn) → Suited (dirSlots w l) name short lfn) ∧ Quiet w t := by
  have hgen : Triple (Quiet w) (fat32GenerateUniqueShortName s name) fun r t =>
      (∀ short, r = some short → Suited (dirSlots w l) name short true) ∧ Quiet w t := by
    refine (((uniqueLoop_unused hw h _ _ 999999 1).and (uniqueLoop_alias s _ _ 999999 1)).pre
      fun t hq => ⟨hq, trivial⟩).post fun r t ht => ⟨fun short hs => ?_, ht.1.2⟩
    exact ⟨.inr (ht.2 short hs), ht.1.1 short hs, by simp⟩
  have hlong : ∀ candidate, Triple (fun t =>
      (∀ short, some candidate = some short → Suited (dirSlots w l) name short true) ∧ Quiet w t)
      (pure (some (candidate, true)) : Fat (Option (ShortName × Bool)))
      fun r t => (∀ short lfn, r = some (short, lfn) → Suited (dirSlots w l) name short lfn) ∧
        Quiet w t := by
    refine fun candidate => .pure fun t ht => ⟨fun short lfn hs => ?_, ht.2⟩
    cases hs
    exact ht.1 candidate rfl
  rw [fat32PrepareShortName]
  cases hb : fat32BuildShortName name with
  | none =>
    refine .bind hgen fun r => ?_
    cases r with
    | none => exact .pure fun t ht => ⟨by simp, ht.2⟩
    | some candidate => exact hlong candidate
  | some candidate =>
    refine .bind (shortNameExists_unused hw h candidate) fun r => ?_
    obtain _ | _ | _ := r
    · exact .pure fun t ht => ⟨by simp, ht.2⟩
    · refine .pure fun t ht => ⟨fun short lfn hs => ?_, ht.2⟩
      cases hs
      exact ⟨.inl hb, ht.1 rfl, by simp⟩
    · refine .bind (hgen.pre fun t ht => ht.2) fun r => ?_
      cases r with
      | none => exact .pure fun t ht => ⟨by simp, ht.2⟩
      | some candidate => exact hlong candidate

/-! ## A directory that grows -/

/-- The chain of a directory, with all its clusters in use. -/
structure UsedChain (w : World) (s : Nat) (l : List Nat) : Prop extends ChainFrom w s l where
  used : ∀ c ∈ l, nextOf w c ≠ 0

/-- The chain `l` at `s` was extended to `l'` by empty clusters, and nothing else
happened to the volume. -/
structure Extended (w : World) (s : Nat) (l : List Nat) (w' : World) (l' : List Nat) : Prop where
  chain : UsedChain w' s l'
  same : SameGeometry w w'
  faults : w'.faults = w.faults
  openFiles : w'.openFiles = w.openFiles
  grown : l <+: l'
  fresh : ∀ c ∈ l', c ∉ l → InRange w c ∧ nextOf w c = 0 ∧ clusterBuf w' c = fun _ => 0
  next : ∀ c, c ∉ l' → nextOf w' c = nextOf w c
  bytes : ∀ c, 2 ≤ c → (c ∈ l' → c ∈ l) → clusterBuf w' c = clusterBuf w c

theorem Extended.quiet (h : UsedChain w s l) (hq : Quiet w w') : Extended w s l w' l := by
  have hc := chainFrom_quiet h.toChainFrom hq
  obtain ⟨m, rfl⟩ := hq
  exact ⟨⟨hc, h.used⟩, ⟨rfl, rfl, rfl, rfl⟩, rfl, rfl, List.prefix_refl l,
    fun c hc hn => absurd hc hn, fun _ _ => rfl, fun _ _ _ => rfl⟩

theorem Extended.trans (h : Extended w s l w' l') (h' : Extended w' s l' w'' l'') :
    Extended w s l w'' l'' := by
  refine ⟨h'.chain, h.same.trans h'.same, h'.faults.trans h.faults, h'.openFiles.trans h.openFiles,
    h.grown.trans h'.grown, fun c hc hn => ?_, fun c hn => ?_, fun c h2 hn => ?_⟩
  · by_cases hm : c ∈ l'
    · obtain ⟨hin, hz, hb⟩ := h.fresh c hm hn
      exact ⟨hin, hz, (h'.bytes c hin.1 fun _ => hm).trans hb⟩
    · obtain ⟨hin, hz, hb⟩ := h'.fresh c hc hm
      exact ⟨h.same.inRange.mp hin, (h.next c hm).symm.trans hz, hb⟩
  · exact (h'.next c hn).trans (h.next c fun hm => hn (h'.grown.subset hm))
  · by_cases hm : c ∈ l'
    · exact (h'.bytes c h2 fun _ => hm).trans (h.bytes c h2 fun hm => hn (h'.grown.subset hm))
    · exact (h'.bytes c h2 fun hc => absurd (h.grown.subset (hn hc)) hm).trans
        (h.bytes c h2 fun hc => absurd hc hm)

theorem Extended.ready (h : Extended w s l w' l') (hw : Ready w) : Ready w' :=
  hw.of_same h.same h.faults

theorem Extended.allocated (hw : Ready w) (h : UsedChain w s l) {p : Nat} (hp : l.getLast? = some p)
    (hin : InRange w c) (hz : nextOf w c = 0) :
    Extended w s l (allocated w p c) (l ++ [c]) := by
  have hout : c ∉ l := fun hm => h.used c hm hz
  obtain ⟨m, rfl⟩ := List.getLast?_eq_some_iff.mp hp
  have hpm : p ∈ m ++ [p] := by simp
  have hpc : p ≠ c := fun he => hout (he ▸ hpm)
  have hg : SameGeometry w (Allocation.allocated w p c) := sameGeometry_allocated
  have hnext : ∀ a, nextOf (Allocation.allocated w p c) a =
      if a = c then endCluster else if a = p then c else nextOf w a := by
    intro a
    rw [allocated_next (hin.lt hw.geometry) hpc, (h.inRange p hpm).isChained hw.geometry]
    simp only [true_and]
  obtain ⟨hnm, -, hdis⟩ := List.nodup_append.mp h.nodup
  have hpout : p ∉ m := fun hm => hdis p hm p (by simp) rfl
  obtain ⟨z, -, hl⟩ := h.linked
  have hlinked : Linked (nextOf (Allocation.allocated w p c)) endCluster (m ++ [p] ++ [c]) := by
    rw [List.append_assoc]
    refine linked_append.mpr ⟨(linked_append.mp hl).1.congr fun a ha => ?_, ?_, ?_, trivial⟩
    · have hac : a ≠ c := fun he => hout (by rw [← he]; simp [ha])
      have hap : a ≠ p := fun he => hpout (he ▸ ha)
      rw [hnext, if_neg hac, if_neg hap]
    · rw [hnext, if_neg hpc, if_pos rfl]
      rfl
    · rw [hnext, if_pos rfl]
      rfl
  have hmem : ∀ a, a ∈ m ++ [p] ++ [c] ↔ a ∈ m ++ [p] ∨ a = c := fun a => by
    rw [List.mem_append, List.mem_singleton]
  refine ⟨⟨⟨?_, ⟨endCluster, by decide, hlinked⟩, fun a ha => ?_, ?_⟩, fun a ha => ?_⟩, hg,
    allocated_same.2.2, allocated_same.1, List.prefix_append _ _, fun a ha hn => ?_, fun a hn => ?_,
    fun a h2 hn => ?_⟩
  · rw [List.head?_append, h.head]
    rfl
  · rw [hg.inRange]
    exact ((hmem a).mp ha).elim (h.inRange a) fun he => he ▸ hin
  · exact List.nodup_append.mpr ⟨h.nodup, by simp, fun a ha d hd he => hout (by
      rw [← List.mem_singleton.mp hd, ← he]; exact ha)⟩
  · rw [hnext]
    split
    · exact endCluster_ne_zero
    · rename_i hne
      split
      · have := hin.1
        omega
      · exact h.used a (((hmem a).mp ha).resolve_right hne)
  · obtain rfl := ((hmem a).mp ha).resolve_left hn
    exact ⟨hin, hz, clusterBuf_allocated_same hw.geometry⟩
  · have hac : a ≠ c := fun he => hn ((hmem a).mpr (.inr he))
    have hap : a ≠ p := fun he => hn ((hmem a).mpr (.inl (he ▸ hpm)))
    rw [hnext, if_neg hac, if_neg hap]
  · refine clusterBuf_allocated_other hw.geometry hin.1 h2 fun he => ?_
    exact hout (he ▸ hn ((hmem a).mpr (.inr he)))

theorem entriesPerCluster_same (h : SameGeometry w w') :
    entriesPerCluster w' = entriesPerCluster w := by
  obtain ⟨-, h₂, h₃, -⟩ := h.fields
  rw [entriesPerCluster, entriesPerCluster, clusterSize, clusterSize, h₂, h₃]

theorem dirSlots_congr (h : SameGeometry w w') (hb : ∀ c ∈ l, clusterBuf w' c = clusterBuf w c) :
    dirSlots w' l = dirSlots w l := by
  rw [dirSlots, dirSlots, entriesPerCluster_same h]
  exact List.flatMap_congr fun c hc => by rw [hb c hc]

theorem dirSlots_append (w : World) (a b : List Nat) :
    dirSlots w (a ++ b) = dirSlots w a ++ dirSlots w b := List.flatMap_append

theorem dirSlots_grown (hs : SameGeometry w w') (hg : l <+: l') (hn : l'.Nodup)
    (hold : ∀ c ∈ l, clusterBuf w' c = clusterBuf w c)
    (hfresh : ∀ c ∈ l', c ∉ l → clusterBuf w' c = fun _ => 0) :
    ∃ zeros, dirSlots w' l' = dirSlots w l ++ zeros ∧ ∀ p ∈ zeros, p.slot = fun _ => 0 := by
  obtain ⟨more, rfl⟩ := hg
  refine ⟨dirSlots w' more, ?_, fun p hp => ?_⟩
  · rw [dirSlots_append, dirSlots_congr hs hold]
  · obtain ⟨hc, -, hslot⟩ := mem_dirSlots.mp hp
    have hout : p.cluster ∉ l := fun hm => (List.nodup_append.mp hn).2.2 _ hm _ hc rfl
    rw [hslot, hfresh _ (List.mem_append_right l hc) hout]
    funext i
    rw [slotAt, ite_self]

theorem Extended.slots (h : Extended w s l w' l') (hl : ∀ c ∈ l, InRange w c) :
    ∃ zeros, dirSlots w' l' = dirSlots w l ++ zeros ∧ ∀ p ∈ zeros, p.slot = fun _ => 0 :=
  dirSlots_grown h.same h.grown h.chain.nodup (fun c hc => h.bytes c (hl c hc).1 fun _ => hc)
    fun c hc hn => (h.fresh c hc hn).2.2

/-! ## Reserving slots -/

def locationOf (p : Placed) : Location := ⟨p.cluster, p.index⟩

/-- The slot can be taken. -/
def slotFree (p : Placed) : Bool := isFree p.slot

theorem reserveCluster_eq (buf : Buf) (cluster count : Nat) : ∀ (left idx : Nat) (run : List Placed),
    reserveCluster buf cluster count left idx (run.map locationOf) =
      match firstFit slotFree count (clusterSlots buf cluster idx left) run with
      | .found r => .found (r.map locationOf)
      | .more r => .more (r.map locationOf)
  | 0, idx, run => rfl
  | left + 1, idx, run => by
    have hpush : run.map locationOf ++ [(⟨cluster, idx⟩ : Location)] =
        (run ++ [(⟨cluster, idx, slotAt buf idx⟩ : Placed)]).map locationOf := by
      rw [List.map_append]
      rfl
    have hfree := reserveCluster_eq buf cluster count left (idx + 1)
      (run ++ [(⟨cluster, idx, slotAt buf idx⟩ : Placed)])
    have hused := reserveCluster_eq buf cluster count left (idx + 1) []
    rw [List.map_nil] at hused
    rw [clusterSlots_succ, reserveCluster, firstFit, slotFree, hpush]
    dsimp only
    rw [List.length_map, hfree, hused]
    split
    · split <;> rfl
    · rfl

theorem allocate_extends (hw : Ready w) (h : UsedChain w s l) {p : Nat} (hp : l.getLast? = some p) :
    Triple (fun t => t = w) (fat32AllocateCluster p) fun c w' =>
      c = 0 ∧ Extended w s l w' l ∨ c ≠ 0 ∧ Extended w s l w' (l ++ [c]) := by
  intro t ht c w' hr
  obtain rfl := ht.symm
  have hq : Quiet w w.spend := (Quiet.refl w).spend
  have hstay : Extended w s l w.spend l := .quiet h hq
  rw [allocateCluster_eq hw.geometry hw.noFaults hw.flushable] at hr
  split at hr
  · cases hfree : findFree w with
    | none =>
      rw [hfree] at hr
      obtain ⟨rfl, rfl⟩ := Prod.mk.inj (Option.some.inj hr)
      exact .inl ⟨rfl, hstay⟩
    | some c =>
      rw [hfree] at hr
      obtain ⟨rfl, rfl⟩ := Prod.mk.inj (Option.some.inj hr)
      obtain ⟨hin, hz⟩ := findFree_some hfree
      have := hin.1
      exact .inr ⟨by omega, hstay.trans
        (.allocated (ready_quiet hw hq) hstay.chain hp (hq.same.inRange.mpr hin) hz)⟩
  · obtain ⟨rfl, rfl⟩ := Prod.mk.inj (Option.some.inj hr)
    exact .inl ⟨rfl, hstay⟩

/-- The directory has grown at most, and the slots reserved are the first fit in it. -/
def Reserved (w : World) (s : Nat) (l : List Nat) (count : Nat) (r : Option (List Location))
    (w' : World) : Prop :=
  ∃ l', Extended w s l w' l' ∧ ∀ locations, r = some locations → ∃ found,
    firstFit slotFree count (dirSlots w' l') [] = .found found ∧
      locations = found.map locationOf

theorem reserveLoop_reserved (count rounds : Nat) : ∀ (c : Nat) (a rest : List Nat)
    (run : List Placed) (w : World), Ready w → UsedChain w s (a ++ c :: rest) →
    firstFit slotFree count (dirSlots w a) [] = .more run →
    Triple (fun t => t = w) (reserveLoop count rounds c (run.map locationOf))
      (Reserved w s (a ++ c :: rest) count) := by
  induction rounds with
  | zero =>
    intro c a rest run w hw h _
    have hnone : ∀ t, t = w → Reserved w s (a ++ c :: rest) count none t := by
      rintro _ rfl
      exact ⟨_, .quiet h (.refl _), by simp⟩
    rw [reserveLoop]
    exact .ite (fun _ => .diverge) fun _ => .pure hnone
  | succ rounds ih =>
    intro c a rest run w hw h hrun
    have hnone : ∀ t, t = w → Reserved w s (a ++ c :: rest) count none t := by
      rintro _ rfl
      exact ⟨_, .quiet h (.refl _), by simp⟩
    have hin : InRange w c := h.inRange c (by simp)
    rw [reserveLoop]
    refine .ite (fun _ => .pure hnone) fun _ => ?_
    refine .bind (Q := fun r t => r = some (clusterBuf w c) ∧ t = w) ?_ fun r => ?_
    · intro t ht r t' hr
      obtain rfl := ht.symm
      rw [readCluster_eq hw.geometry hw.noFaults hin] at hr
      obtain ⟨rfl, rfl⟩ := Prod.mk.inj (Option.some.inj hr)
      exact ⟨rfl, rfl⟩
    refine .intro fun t ht => ?_
    obtain ⟨rfl, ht⟩ := ht
    refine .get_bind fun u hu => ?_
    obtain rfl := (hu.trans ht).symm
    -- the slots of this cluster
    have hpass : firstFit slotFree count (dirSlots w (a ++ [c])) [] = firstFit slotFree count
        (clusterSlots (clusterBuf w c) c 0 (entriesPerCluster w)) run := by
      rw [dirSlots_append, firstFit_append, hrun]
      simp [dirSlots]
    have hsplit : a ++ c :: rest = a ++ [c] ++ rest := by simp
    rw [reserveCluster_eq]
    cases hfit : firstFit slotFree count
        (clusterSlots (clusterBuf w c) c 0 (entriesPerCluster w)) run with
    | found found =>
      refine .pure fun t ht => ⟨_, .quiet h (ht ▸ .refl w), fun locations hl => ⟨found, ?_, ?_⟩⟩
      · rw [ht, hsplit, dirSlots_append, firstFit_append, hpass, hfit]
      · exact (Option.some.inj hl).symm
    | more run' =>
      have hrun' : firstFit slotFree count (dirSlots w (a ++ [c])) [] = .more run' :=
        hpass.trans hfit
      obtain ⟨z, hz, hl⟩ := h.linked
      have hnext : fat32GetNextCluster w c = rest.headD z :=
        (getNextCluster_eq hw.geometry hin).trans (linked_append.mp hl).2.1
      rw [hnext]
      cases rest with
      | cons d rest =>
        have hd : isChained d = true := (h.inRange d (by simp)).isChained hw.geometry
        have hrest := ih d (a ++ [c]) rest run' w hw (by rw [List.append_assoc]; exact h) hrun'
        rw [List.append_assoc] at hrest
        exact .ite (fun _ => hrest) fun hn => absurd hd hn
      | nil =>
        refine .ite (fun hn => absurd hn (by rw [List.headD_nil, hz]; simp)) fun _ => ?_
        refine .bind (allocate_extends hw h (List.getLast?_concat ..)) fun d => ?_
        refine .intro fun u hu => .ite (fun hd => ?_) fun hd => ?_
        · obtain ⟨-, hu⟩ := hu.resolve_right fun h => h.1 hd
          exact .pure fun v hv => ⟨_, hv ▸ hu, by simp⟩
        · obtain ⟨-, hu⟩ := hu.resolve_left fun h => hd h.1
          -- the old slots are still passed
          have hkept : firstFit slotFree count (dirSlots u (a ++ [c])) [] = .more run' := by
            rw [dirSlots_congr hu.same fun e he => hu.bytes e (h.inRange e he).1 fun _ => he]
            exact hrun'
          refine (ih d (a ++ [c]) [] run' u (hu.ready hw) hu.chain hkept).post fun r v hv => ?_
          obtain ⟨l', hv, hr⟩ := hv
          exact ⟨l', hu.trans hv, hr⟩

theorem Extended.of_quiet (hq : Quiet w w') (hc : UsedChain w s l) (h : Extended w' s l w'' l') :
    Extended w s l w'' l' := (Extended.quiet hc hq).trans h

theorem reserveEntries_reserved (hw : Ready w) (h : UsedChain w s l) {count : Nat}
    (hcount : count ≠ 0) :
    Triple (Quiet w) (fat32DirectoryReserveEntries s count) (Reserved w s l count) := by
  have hnone : ∀ t, Quiet w t → Reserved w s l count none t := fun t hq => ⟨l, .quiet h hq, by simp⟩
  rw [fat32DirectoryReserveEntries]
  refine .ite (fun he => absurd he hcount) fun _ => .get_bind fun t hq => ?_
  refine .bind ((kmalloc_quiet _).pre fun u hu => hu ▸ hq) fun _ =>
    .ite (fun _ => .bind (kmalloc_quiet _) fun _ => .ite (fun _ => ?_) fun _ => .pure hnone)
      fun _ => .pure hnone
  refine .intro fun u hu => ?_
  obtain ⟨rest, rfl⟩ : ∃ rest, l = s :: rest := by
    have hhead := h.head
    cases l with
    | nil => cases hhead
    | cons c rest => exact ⟨rest, by rw [Option.some.inj hhead]⟩
  have hc : UsedChain u s (s :: rest) := (Extended.quiet h hu).chain
  refine (reserveLoop_reserved count walkLimit s [] rest [] u (ready_quiet hw hu) hc rfl).post
    fun r v hv => ?_
  obtain ⟨l', hv, hr⟩ := hv
  exact ⟨l', hv.of_quiet hu h, hr⟩

theorem reserveEntries_unchained (hs : isChained s = false) {count : Nat} (hcount : count ≠ 0) :
    Triple (Quiet w) (fat32DirectoryReserveEntries s count) fun r t => r = none ∧ Quiet w t := by
  have hloop : Triple (Quiet w) (reserveLoop count walkLimit s [])
      fun r t => r = none ∧ Quiet w t := by
    have hwalk : walkLimit = (2 ^ 28 - 1) + 1 := rfl
    rw [hwalk, reserveLoop]
    exact .ite (fun _ => .pure fun t hq => ⟨rfl, hq⟩) fun hn => absurd hs (by simpa using hn)
  rw [fat32DirectoryReserveEntries]
  refine .ite (fun he => absurd he hcount) fun _ => .get_bind fun t hq => ?_
  exact .bind ((kmalloc_quiet _).pre fun u hu => hu ▸ hq) fun _ =>
    .ite (fun _ => .bind (kmalloc_quiet _) fun _ => .ite (fun _ => hloop)
      fun _ => .pure fun t hq => ⟨rfl, hq⟩) fun _ => .pure fun t hq => ⟨rfl, hq⟩

/-! ## Writing slots -/

/-- The volume with one slot overwritten. -/
def putEntry (w : World) (z : Location × Buf) : World :=
  putCluster w z.1.cluster (putSlot (clusterBuf w z.1.cluster) z.1.index z.2)

/-- The volume with the cluster that still is to be written. -/
def pending (w : World) (current : Nat) (buf : Buf) (dirty : Bool) : World :=
  if dirty then putCluster w current buf else w

/-- A slot of a cluster of the volume. -/
def LocationIn (w : World) (loc : Location) : Prop :=
  InRange w loc.cluster ∧ loc.index < entriesPerCluster w

theorem putCluster_putCluster (w : World) (c : Nat) (buf buf' : Buf) :
    putCluster (putCluster w c buf) c buf' = putCluster w c buf' := by
  have hstore : ∀ (m : Buf) (a len : Nat), copyInto (copyInto m a len buf) a len buf' =
      copyInto m a len buf' := by
    intro m a len
    funext x
    simp only [copyInto, store]
    split <;> rfl
  simp only [putCluster, writeBytes, clusterAddr, World.mk.injEq, true_and, and_true]
  funext d
  split
  · exact hstore _ _ _
  · rfl

theorem clusterBuf_putCluster (w : World) (c : Nat) {buf : Buf}
    (h : ∀ i, w.fs.sectorsPerCluster * sectorSize ≤ i → buf i = 0) :
    clusterBuf (putCluster w c buf) c = buf := by
  funext i
  by_cases hi : i < w.fs.sectorsPerCluster * sectorSize
  · exact clusterBuf_putCluster_same hi
  · rw [clusterBuf_outside (w := putCluster w c buf) (Nat.not_lt.mp hi), h i (Nat.not_lt.mp hi)]

theorem slot_inside (g : Geometry w) {i : Nat} (hi : i < entriesPerCluster w) :
    i * slotSize + slotSize ≤ w.fs.sectorsPerCluster * sectorSize := by
  have h := Nat.div_mul_le_self (clusterSize w) slotSize
  have hsucc : (i + 1) * slotSize ≤ entriesPerCluster w * slotSize := Nat.mul_le_mul_right _ hi
  rw [Nat.succ_mul] at hsucc
  rw [← g.clusterSize_eq]
  exact hsucc.trans h

theorem putSlot_outside (g : Geometry w) {buf e : Buf} {i j : Nat} (hi : i < entriesPerCluster w)
    (hj : w.fs.sectorsPerCluster * sectorSize ≤ j) : putSlot buf i e j = buf j := by
  have := slot_inside g hi
  exact store_outside (by omega)

theorem geometry_putCluster (hw : Ready w) (c : Nat) (buf : Buf) : Ready (putCluster w c buf) :=
  hw.of_same sameGeometry_putCluster rfl

/-- **The loop writes every slot**, whichever cluster it has in its buffer. -/
theorem writeEntriesLoop_eq : ∀ (zs : List (Location × Buf)) (w : World) (current : Nat) (buf : Buf)
    (dirty : Bool), Ready w → (∀ z ∈ zs, LocationIn w z.1) →
    (dirty = true → InRange w current ∧
      ∀ i, w.fs.sectorsPerCluster * sectorSize ≤ i → buf i = 0) →
    (dirty = false → current = 0) →
    writeEntriesLoop zs current buf dirty w =
      some (true, zs.foldl putEntry (pending w current buf dirty))
  | [], w, current, buf, dirty, hw, _, hd, _ => by
    cases dirty with
    | false => rfl
    | true => exact writeCluster_eq hw.geometry hw.noFaults (hd rfl).1 buf
  | (loc, e) :: rest, w, current, buf, dirty, hw, hin, hd, h0 => by
    obtain ⟨hloc, hidx⟩ := hin (loc, e) (by simp)
    have hrest : ∀ z ∈ rest, LocationIn w z.1 := fun z hz => hin z (by simp [hz])
    have hpw : Ready (pending w current buf dirty) := by
      cases dirty with
      | false => exact hw
      | true => exact geometry_putCluster hw current buf
    have hfs : (pending w current buf dirty).fs = w.fs := by cases dirty <;> rfl
    have hsize : ∀ b : Buf, (∀ i, w.fs.sectorsPerCluster * sectorSize ≤ i → b i = 0) →
        ∀ i, w.fs.sectorsPerCluster * sectorSize ≤ i → putSlot b loc.index e i = 0 :=
      fun b hb i hi => (putSlot_outside hw.geometry hidx hi).trans (hb i hi)
    rw [writeEntriesLoop, List.foldl_cons]
    by_cases hcur : loc.cluster = current
    · -- the buffer holds the cluster
      have hdirty : dirty = true := by
        cases dirty with
        | true => rfl
        | false =>
          have := hloc.1
          rw [hcur, h0 rfl] at this
          omega
      subst hdirty
      obtain ⟨hc, hb⟩ := hd rfl
      rw [if_neg (not_not.mpr hcur), writeEntriesLoop_eq rest w current _ true hw hrest
        (fun _ => ⟨hc, hsize buf hb⟩) (by simp)]
      have hput : putEntry (pending w current buf true) (loc, e) =
          pending w current (putSlot buf loc.index e) true := by
        simp only [putEntry, pending, if_true, hcur]
        rw [putCluster_putCluster, clusterBuf_putCluster w current hb]
      rw [hput]
    · -- it is written, and the other cluster is read
      have hloc' : InRange (pending w current buf dirty) loc.cluster := by
        rw [InRange, hfs]
        exact hloc
      have hclear : ∀ i, w.fs.sectorsPerCluster * sectorSize ≤ i →
          clusterBuf (pending w current buf dirty) loc.cluster i = 0 := by
        intro i hi
        exact clusterBuf_outside (by rw [hfs]; exact hi)
      have hper : entriesPerCluster (pending w current buf dirty) = entriesPerCluster w := by
        rw [entriesPerCluster, entriesPerCluster, clusterSize, clusterSize, hfs]
      have hread := readCluster_eq hpw.geometry hpw.noFaults hloc'
      have hrec := writeEntriesLoop_eq rest (pending w current buf dirty) loc.cluster
        (putSlot (clusterBuf (pending w current buf dirty) loc.cluster) loc.index e) true hpw
        (fun z hz => ⟨by rw [InRange, hfs]; exact (hrest z hz).1, by rw [hper]; exact (hrest z hz).2⟩)
        (fun _ => ⟨hloc', by rw [hfs]; exact hsize _ hclear⟩) (by simp)
      rw [if_pos hcur]
      cases dirty with
      | false =>
        change (fat32ReadCluster loc.cluster (pending w current buf false)).bind _ = _
        rw [hread]
        exact hrec
      | true =>
        have hwrite := writeCluster_eq hw.geometry hw.noFaults (hd rfl).1 buf
        rw [if_pos rfl, bind_run, hwrite]
        change (fat32ReadCluster loc.cluster (pending w current buf true)).bind _ = _
        rw [hread]
        exact hrec

/-- Only bytes of the clusters `l` changed. -/
structure Rewritten (w : World) (l : List Nat) (w' : World) : Prop where
  same : SameGeometry w w'
  faults : w'.faults = w.faults
  openFiles : w'.openFiles = w.openFiles
  next : ∀ c, nextOf w' c = nextOf w c
  bytes : ∀ c, 2 ≤ c → c ∉ l → clusterBuf w' c = clusterBuf w c

theorem Rewritten.refl (w : World) (l : List Nat) : Rewritten w l w :=
  ⟨.refl w, rfl, rfl, fun _ => rfl, fun _ _ _ => rfl⟩

theorem Rewritten.trans (h : Rewritten w l w') (h' : Rewritten w' l w'') : Rewritten w l w'' :=
  ⟨h.same.trans h'.same, h'.faults.trans h.faults, h'.openFiles.trans h.openFiles,
    fun c => (h'.next c).trans (h.next c),
    fun c h2 hc => (h'.bytes c h2 hc).trans (h.bytes c h2 hc)⟩

theorem Rewritten.putCluster (w : World) (buf : Buf) (h2 : 2 ≤ c) (hc : c ∈ l) :
    Rewritten w l (putCluster w c buf) :=
  ⟨sameGeometry_putCluster, rfl, rfl, fun _ => rfl,
    fun _ hd hn => clusterBuf_putCluster_other h2 hd fun he => hn (he ▸ hc)⟩

theorem Rewritten.ready (h : Rewritten w l w') (hw : Ready w) : Ready w' := hw.of_same h.same h.faults

theorem chainFrom_congr (h : ChainFrom w s l) (hs : SameGeometry w w')
    (hn : ∀ c ∈ l, nextOf w' c = nextOf w c) : ChainFrom w' s l := by
  obtain ⟨z, hz, hl⟩ := h.linked
  exact ⟨h.head, ⟨z, hz, hl.congr hn⟩, fun c hc => hs.inRange.mpr (h.inRange c hc), h.nodup⟩

theorem UsedChain.congr (h : UsedChain w s l) (hs : SameGeometry w w')
    (hn : ∀ c ∈ l, nextOf w' c = nextOf w c) : UsedChain w' s l :=
  ⟨chainFrom_congr h.toChainFrom hs hn, fun c hc => by rw [hn c hc]; exact h.used c hc⟩

/-- A slot at `loc` is replaced. -/
def overlay (loc : Location) (e : Buf) (p : Placed) : Placed :=
  if locationOf p = loc then ⟨p.cluster, p.index, e⟩ else p

theorem overlay_same {loc : Location} {e : Buf} {p : Placed} (h : locationOf p = loc) :
    overlay loc e p = ⟨p.cluster, p.index, e⟩ := if_pos h

theorem overlay_other {loc : Location} {e : Buf} {p : Placed} (h : locationOf p ≠ loc) :
    overlay loc e p = p := if_neg h

theorem dirSlots_putEntry (hw : Ready w) (hl : ∀ c ∈ l, InRange w c) {loc : Location} {e : Buf}
    (hloc : LocationIn w loc) (he : ∀ i, slotSize ≤ i → e i = 0) :
    dirSlots (putEntry w (loc, e)) l = (dirSlots w l).map (overlay loc e) := by
  have hbuf : clusterBuf (putEntry w (loc, e)) loc.cluster =
      putSlot (clusterBuf w loc.cluster) loc.index e :=
    clusterBuf_putCluster w _ fun i hi =>
      (putSlot_outside hw.geometry hloc.2 hi).trans (clusterBuf_outside hi)
  have hper : entriesPerCluster (putEntry w (loc, e)) = entriesPerCluster w :=
    entriesPerCluster_same sameGeometry_putCluster
  rw [dirSlots, dirSlots, hper, List.map_flatMap]
  refine List.flatMap_congr fun c hc => ?_
  rw [clusterSlots, clusterSlots, List.map_map]
  refine List.map_congr_left fun i _ => ?_
  change (⟨c, i, slotAt (clusterBuf (putEntry w (loc, e)) c) i⟩ : Placed) =
    overlay loc e ⟨c, i, slotAt (clusterBuf w c) i⟩
  by_cases hne : locationOf ⟨c, i, slotAt (clusterBuf w c) i⟩ = loc
  · rw [overlay_same hne]
    subst hne
    exact congrArg (Placed.mk c i) ((congrArg (slotAt · i) hbuf).trans (slotAt_putSlot_same he))
  · rw [overlay_other hne]
    by_cases hcl : c = loc.cluster
    · subst hcl
      have hi : i ≠ loc.index := fun hi => hne (by rw [hi]; rfl)
      rw [hbuf, slotAt_putSlot_other hi]
    · rw [putEntry, clusterBuf_putCluster_other hloc.1.1 (hl c hc).1 hcl]

theorem nodup_locations (hl : l.Nodup) : ((dirSlots w l).map locationOf).Nodup := by
  rw [dirSlots, List.map_flatMap]
  refine List.nodup_flatMap.mpr ⟨fun c _ => ?_, hl.imp fun {c d} hne => ?_⟩
  · rw [clusterSlots, List.map_map]
    exact List.Nodup.map (fun i j he => (Location.mk.inj he).2) List.nodup_range'
  · intro loc hc hd
    simp only [clusterSlots, List.map_map, List.mem_map, Function.comp, locationOf] at hc hd
    obtain ⟨i, -, rfl⟩ := hc
    obtain ⟨j, -, he⟩ := hd
    exact hne (Location.mk.inj he).1.symm

/-- The slots with new contents. -/
def fill (found : List Placed) (entries : List Buf) : List Placed :=
  List.zipWith (fun p e => ⟨p.cluster, p.index, e⟩) found entries

theorem overlay_of_ne {loc : Location} {e : Buf} {ps : List Placed}
    (h : ∀ p ∈ ps, locationOf p ≠ loc) : ps.map (overlay loc e) = ps :=
  (List.map_congr_left fun p hp => overlay_other (h p hp)).trans (List.map_id _)

theorem dirSlots_putEntries (hn : l.Nodup) (found : List Placed) :
    ∀ (entries : List Buf) (pre post : List Placed) (w : World), Ready w →
    (∀ c ∈ l, InRange w c) → dirSlots w l = pre ++ found ++ post →
    found.length = entries.length → (∀ e ∈ entries, ∀ i, slotSize ≤ i → e i = 0) →
    Rewritten w l (((found.map locationOf).zip entries).foldl putEntry w) ∧
    dirSlots (((found.map locationOf).zip entries).foldl putEntry w) l =
      pre ++ fill found entries ++ post := by
  induction found with
  | nil => exact fun entries pre post w _ _ hslots _ _ => ⟨.refl w l, hslots⟩
  | cons p found ih =>
    intro entries pre post w hw hin hslots hlen hout
    obtain ⟨e, entries, rfl⟩ := List.exists_cons_of_length_eq_add_one hlen.symm
    have hp : p ∈ dirSlots w l := by rw [hslots]; simp
    obtain ⟨hpc, hpi, -⟩ := mem_dirSlots.mp hp
    have hloc : LocationIn w (locationOf p) := ⟨hin _ hpc, hpi⟩
    have hput : Rewritten w l (putEntry w (locationOf p, e)) := .putCluster w _ (hin _ hpc).1 hpc
    -- the other slots lie elsewhere
    have hnodup := nodup_locations (w := w) hn
    rw [hslots, List.map_append, List.map_append, List.map_cons] at hnodup
    obtain ⟨hfront, -, hback⟩ := List.nodup_append.mp hnodup
    obtain ⟨-, hfound, hpre⟩ := List.nodup_append.mp hfront
    have h₁ : ∀ q ∈ pre, locationOf q ≠ locationOf p := fun q hq =>
      hpre _ (List.mem_map_of_mem hq) _ (by simp)
    have h₂ : ∀ q ∈ found, locationOf q ≠ locationOf p := fun q hq he =>
      (List.nodup_cons.mp hfound).1 (he ▸ List.mem_map_of_mem hq)
    have h₃ : ∀ q ∈ post, locationOf q ≠ locationOf p := fun q hq he =>
      hback _ (by simp) _ (List.mem_map_of_mem hq) he.symm
    have hnext : dirSlots (putEntry w (locationOf p, e)) l =
        (pre ++ [⟨p.cluster, p.index, e⟩]) ++ found ++ post := by
      rw [dirSlots_putEntry hw hin hloc (hout e (by simp)), hslots, List.map_append,
        List.map_append, List.map_cons, overlay_of_ne h₁, overlay_of_ne h₂, overlay_of_ne h₃,
        overlay_same rfl]
      simp
    obtain ⟨hr, hs⟩ := ih entries _ post _ (hput.ready hw)
      (fun c hc => hput.same.inRange.mpr (hin c hc)) hnext (by simpa using hlen)
      fun e he => hout e (by simp [he])
    exact ⟨hput.trans hr, hs.trans (by simp [fill])⟩

theorem length_entryBytes {name : CStr} {short : ShortName} {lfn : Bool} {attributes : UInt8}
    {cluster : Nat} : (entryBytes name short lfn attributes cluster).length =
      (if lfn then lfnEntries name else 0) + 1 := by
  rw [entryBytes, List.length_append, List.length_singleton]
  split
  · rw [lfnSlots, List.length_map, List.length_range]
  · rfl

/-- An entry for `name` was added to the directory at `s`, whose chain `l` grew to
`l'`: `w₁` is the volume before the slots `found` were written. -/
structure Added (w : World) (s : Nat) (l : List Nat) (name : CStr) (attributes : UInt8) (cluster : Nat)
    (w' : World) (l' : List Nat) (short : ShortName) (lfn : Bool) (w₁ : World)
    (pre found post : List Placed) : Prop where
  suited : Suited (dirSlots w l) name short lfn
  length_le : name.length ≤ 255
  extended : Extended w s l w₁ l'
  before : dirSlots w₁ l' = pre ++ found ++ post
  free : ∀ p ∈ found, slotFree p = true
  pre_used : ∀ p, pre.getLast? = some p → slotFree p = false
  length : found.length = (entryBytes name short lfn attributes cluster).length
  written : Rewritten w₁ l' w'
  after : dirSlots w' l' = pre ++ fill found (entryBytes name short lfn attributes cluster) ++ post

/-- What `addEntry` does: it writes an entry, or the directory has grown at most. -/
def AddsEntry (w : World) (s : Nat) (l : List Nat) (name : CStr) (attributes : UInt8) (cluster : Nat)
    (ok : Bool) (w' : World) : Prop :=
  if ok then ∃ l' short lfn w₁ pre found post,
    Added w s l name attributes cluster w' l' short lfn w₁ pre found post
  else ∃ l', Extended w s l w' l'

theorem Extended.then_quiet (h : Extended w s l w' l') (hq : Quiet w' w'') :
    Extended w s l w'' l' := h.trans (.quiet h.chain hq)

theorem writeDirectoryEntries_writes (hw : Ready w) (h : UsedChain w s l) {pre found post : List Placed}
    (hslots : dirSlots w l = pre ++ found ++ post) {entries : List Buf}
    (hlen : found.length = entries.length) (hpos : found ≠ [])
    (hout : ∀ e ∈ entries, ∀ i, slotSize ≤ i → e i = 0) :
    Triple (Quiet w) (fat32WriteDirectoryEntries (found.map locationOf) entries) fun ok w' =>
      if ok then ∃ w₁, Quiet w w₁ ∧ Rewritten w₁ l w' ∧
        dirSlots w' l = pre ++ fill found entries ++ post
      else Quiet w w' := by
  rw [fat32WriteDirectoryEntries]
  refine .ite (fun he => absurd (by simpa using he) hpos) fun _ => .get_bind fun t hq => ?_
  refine .bind ((kmalloc_quiet _).pre fun u hu => hu ▸ hq) fun _ => .ite (fun _ => ?_)
    fun _ => .pure fun u hu => hu
  intro u hu ok w' hr
  have hwu := ready_quiet hw hu
  have hcu := (Extended.quiet h hu).chain
  have hslots' : dirSlots u l = pre ++ found ++ post := (dirSlots_quiet hu l).trans hslots
  have hin : ∀ z ∈ (found.map locationOf).zip entries, LocationIn u z.1 := by
    intro z hz
    obtain ⟨p, hp, he⟩ := List.mem_map.mp (List.of_mem_zip (show (z.1, z.2) ∈ _ from hz)).1
    obtain ⟨hpc, hpi, -⟩ := mem_dirSlots.mp (hslots' ▸ List.mem_append_left post
      (List.mem_append_right pre hp))
    rw [← he]
    exact ⟨hcu.inRange _ hpc, hpi⟩
  rw [writeEntriesLoop_eq _ u 0 freshBuf false hwu hin (by simp) fun _ => rfl] at hr
  obtain ⟨rfl, rfl⟩ := Prod.mk.inj (Option.some.inj hr)
  obtain ⟨hrw, hafter⟩ := dirSlots_putEntries hcu.nodup found entries pre post u hwu hcu.inRange hslots'
    hlen hout
  exact ⟨u, hu, hrw, hafter⟩

/-- **An entry is added to a directory.** -/
theorem addEntry_adds (hw : Ready w) (h : UsedChain w s l) (name : CStr) (attributes : UInt8)
    (cluster : Nat) :
    Triple (Quiet w) (addEntry s name attributes cluster) (AddsEntry w s l name attributes cluster) := by
  have hstay : ∀ t, Quiet w t → AddsEntry w s l name attributes cluster false t :=
    fun t hq => ⟨l, .quiet h hq⟩
  rw [addEntry]
  refine .ite (fun _ => .pure hstay) fun hlen => ?_
  refine .bind (prepareShortName_suited hw (.inl h.toChainFrom) name) fun r => ?_
  match r with
  | none => exact .pure fun t ht => hstay t ht.2
  | some (short, lfn) =>
    refine .intro fun t ht => ?_
    obtain ⟨hsuited, hq⟩ := ht
    have hsuited := hsuited short lfn rfl
    have hcount : (if lfn = true then lfnEntries name else 0) + 1 ≠ 0 := Nat.succ_ne_zero _
    refine .bind ((kmalloc_quiet _).pre fun u hu => hu ▸ hq) fun _ => .ite (fun _ => ?_)
      fun _ => .pure hstay
    refine .bind (reserveEntries_reserved hw h hcount) fun r => .intro fun u hu => ?_
    obtain ⟨l', hext, hfound⟩ := hu
    cases r with
    | none => exact .pure fun v hv => ⟨l', hv ▸ hext⟩
    | some locations =>
      obtain ⟨found, hfit, rfl⟩ := hfound locations rfl
      obtain ⟨pre, post, hslots, hfree, hflen, hpre⟩ := firstFit_found _ [] [] .nil hfit
      rw [List.nil_append] at hslots
      refine .bind ((kmalloc_quiet _).pre fun v hv => hv ▸ .refl u) fun _ => .ite (fun _ => ?_)
        fun _ => .pure fun v hv => ⟨l', hext.then_quiet hv⟩
      have hflen : found.length = (entryBytes name short lfn attributes cluster).length :=
        hflen.trans length_entryBytes.symm
      have hpos : found ≠ [] := by
        rintro rfl
        rw [length_entryBytes] at hflen
        exact hcount hflen.symm
      refine (writeDirectoryEntries_writes (hext.ready hw) hext.chain hslots hflen hpos
        entryBytes_outside).post fun ok w' hok => ?_
      cases ok with
      | false => exact ⟨l', hext.then_quiet hok⟩
      | true =>
        obtain ⟨w₁, hq₁, hrw, hafter⟩ := hok
        refine ⟨l', short, lfn, w₁, pre, found, post, hsuited, Nat.not_lt.mp hlen,
          hext.then_quiet hq₁, ?_, hfree, hpre, hflen, hrw, hafter⟩
        rw [dirSlots_quiet hq₁]
        exact hslots

theorem addEntry_unchained (hw : Ready w) (hs : isChained s = false) (name : CStr) (attributes : UInt8)
    (cluster : Nat) :
    Triple (Quiet w) (addEntry s name attributes cluster) fun ok t => ok = false ∧ Quiet w t := by
  rw [addEntry]
  refine .ite (fun _ => .pure fun t hq => ⟨rfl, hq⟩) fun _ => ?_
  refine .bind (prepareShortName_suited hw (.inr ⟨hs, rfl⟩) name) fun r => ?_
  match r with
  | none => exact .pure fun t ht => ⟨rfl, ht.2⟩
  | some (short, lfn) =>
    refine .bind ((kmalloc_quiet _).pre fun t ht => ht.2) fun _ => .ite (fun _ => ?_)
      fun _ => .pure fun t hq => ⟨rfl, hq⟩
    refine .bind (reserveEntries_unchained hs (Nat.succ_ne_zero _)) fun r => .intro fun t ht => ?_
    obtain ⟨rfl, hq⟩ := ht
    exact .pure fun u hu => ⟨rfl, hu ▸ hq⟩

end

end ContinuumOS.Fat32.Insertion
