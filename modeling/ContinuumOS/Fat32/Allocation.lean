import Mathlib.Logic.Relation
import ContinuumOS.Lib.Chains
import ContinuumOS.Fat32.Device

/-! # Cluster chains under allocation and freeing

The table holds the chains of all files and directories. `fat32_allocate_cluster`
and `fat32_free_cluster_chain` are described by their effect on the table, and
from that on the chains: over every run of such calls the clusters in use stay
a set of disjoint chains without a cycle. -/
namespace ContinuumOS.Fat32.Allocation
open ContinuumOS.Lib.Effect ContinuumOS.Lib.Chains
open ContinuumOS.Fat32.Volume ContinuumOS.Fat32.Device

/-- The successor of a cluster: its entry without the upper four bits. -/
def nextOf (w : World) (c : Nat) : Nat := w.fs.fatTable c % 2 ^ 28

/-- `cs` are the chains of the volume. -/
def ChainsOf (w : World) (cs : List (List Nat)) : Prop :=
  InChains (nextOf w) endCluster 0 (InRange w) cs

section

variable {w : World} {p c a : Nat}

theorem getNextCluster_eq (g : Geometry w) (h : InRange w c) :
    fat32GetNextCluster w c = nextOf w c := by
  simp only [fat32GetNextCluster, g.mounted, g.loaded, not_true_eq_false, or_self, if_false, nextOf,
    if_neg (Nat.not_le.mpr h.2)]

/-! ## Finding and linking a cluster -/

theorem findFree_none : findFree w = none ↔ ∀ c, InRange w c → nextOf w c ≠ 0 := by
  simp only [findFree, List.find?_eq_none, List.mem_range'_1, beq_iff_eq, nextOf, InRange]
  constructor
  · intro h c hc
    exact h c (by omega)
  · intro h c hc
    exact h c (by omega)

theorem findFree_some (h : findFree w = some c) : InRange w c ∧ nextOf w c = 0 := by
  have h₁ := List.mem_of_find?_eq_some h
  have h₂ := List.find?_some h
  rw [List.mem_range'_1] at h₁
  exact ⟨⟨by omega, by omega⟩, by simpa [nextOf] using h₂⟩

theorem setFat_next (v : Nat) :
    nextOf (w.setFat c v) a = if a = c then v % 2 ^ 28 else nextOf w a := by
  simp only [nextOf, World.setFat, World.setTable, setEntry]
  split <;> rfl

theorem or_mod_of_lt (x : Nat) (h : c < 2 ^ 28) : (x * 2 ^ 28 ||| c) % 2 ^ 28 = c := by
  rw [← Nat.shiftLeft_eq, ← Nat.shiftLeft_add_eq_or_of_lt h, Nat.shiftLeft_eq, Nat.add_comm,
    Nat.add_mul_mod_self_right, Nat.mod_eq_of_lt h]

theorem linkNew_next (hc : c < 2 ^ 28) (hp : p ≠ c) : nextOf (linkNew w p c) a =
    if a = c then endCluster else if isChained p = true ∧ a = p then c else nextOf w a := by
  simp only [linkNew]
  by_cases h : isChained p = true
  · simp only [h, if_true, setFat_next, or_mod_of_lt _ hc, true_and]
    by_cases ha : a = c
    · rw [if_neg (by omega), if_pos ha, if_pos ha]; rfl
    · by_cases hap : a = p
      · rw [if_pos hap, if_neg ha, if_pos hap]
      · rw [if_neg hap, if_neg ha, if_neg ha, if_neg hap]
  · simp only [h, setFat_next, false_and, Bool.false_eq_true, if_false]
    rfl

theorem sameGeometry_linkNew : SameGeometry w (linkNew w p c) := by
  simp only [linkNew]
  split <;> exact ⟨rfl, rfl, rfl, rfl⟩

theorem linkNew_same : (linkNew w p c).sectors = w.sectors ∧
    (linkNew w p c).openFiles = w.openFiles ∧ (linkNew w p c).mallocs = w.mallocs ∧
    (linkNew w p c).faults = w.faults := by
  simp only [linkNew]
  split <;> exact ⟨rfl, rfl, rfl, rfl⟩

/-- The volume after `cluster` was allocated behind `previous`. -/
def allocated (w : World) (previous cluster : Nat) : World :=
  flushed (putCluster (linkNew w previous cluster) cluster fun _ => 0)

theorem sameGeometry_allocated : SameGeometry w (allocated w p c) :=
  sameGeometry_linkNew.trans (sameGeometry_putCluster.trans sameGeometry_flushed)

theorem allocated_next (hc : c < 2 ^ 28) (hp : p ≠ c) : nextOf (allocated w p c) a =
    if a = c then endCluster else if isChained p = true ∧ a = p then c else nextOf w a :=
  linkNew_next hc hp

theorem allocated_same : (allocated w p c).openFiles = w.openFiles ∧
    (allocated w p c).mallocs = w.mallocs ∧ (allocated w p c).faults = w.faults :=
  linkNew_same.2

theorem clusterBuf_linkNew : clusterBuf (linkNew w p c) a = clusterBuf w a := by
  obtain ⟨h₁, -, h₃, -, -, -, h₇, -⟩ := (sameGeometry_linkNew (w := w) (p := p) (c := c)).fields
  simp only [clusterBuf, clusterAddr, h₁, h₃, h₇, linkNew_same.1]

theorem clusterBuf_allocated_same (g : Geometry w) : clusterBuf (allocated w p c) c = fun _ => 0 := by
  have g' : Geometry (putCluster (linkNew w p c) c fun _ => 0) :=
    sameGeometry_putCluster.geometry (sameGeometry_linkNew.geometry g)
  rw [allocated, clusterBuf_flushed g']
  funext i
  by_cases hi : i < (linkNew w p c).fs.sectorsPerCluster * sectorSize
  · exact clusterBuf_putCluster_same hi
  · exact clusterBuf_outside (by rw [putCluster_fs]; omega)

theorem clusterBuf_allocated_other (g : Geometry w) (hc : 2 ≤ c) (ha : 2 ≤ a) (hne : a ≠ c) :
    clusterBuf (allocated w p c) a = clusterBuf w a := by
  have g' : Geometry (putCluster (linkNew w p c) c fun _ => 0) :=
    sameGeometry_putCluster.geometry (sameGeometry_linkNew.geometry g)
  rw [allocated, clusterBuf_flushed g', clusterBuf_putCluster_other hc ha hne, clusterBuf_linkNew]

/-! ## Allocating -/

/-- **What `fat32_allocate_cluster` does** when the device takes every write. -/
theorem allocateCluster_eq (g : Geometry w) (nf : NoFaults w) (hf : Flushable w) (p : Nat) :
    fat32AllocateCluster p w =
      if w.mallocs 0 = true then
        match findFree w with
        | none => some (0, w.spend)
        | some c => some (c, allocated w.spend p c)
      else some (0, w.spend) := by
  have hsize : clusterSize w ≠ 0 := Nat.pos_iff_ne_zero.mp g.clusterSize_pos
  simp only [fat32AllocateCluster, bind_run, get_run, Option.bind_some, kmalloc, hsize, if_false,
    ite_run]
  split
  · cases hfree : findFree w with
    | none => rfl
    | some c =>
      have hin := (findFree_some hfree).1
      have g₁ : Geometry (linkNew w.spend p c) :=
        sameGeometry_linkNew.geometry (sameGeometry_spend.geometry g)
      have nf₁ : NoFaults (linkNew w.spend p c) := by
        intro n
        rw [linkNew_same.2.2.2]
        exact nf n
      have hin₁ : InRange (linkNew w.spend p c) c :=
        (sameGeometry_linkNew.inRange).mpr (sameGeometry_spend.inRange.mpr hin)
      have hf₁ : Flushable (putCluster (linkNew w.spend p c) c fun _ => 0) := by
        have h : (linkNew w.spend p c).fs.fatSize = w.spend.fs.fatSize :=
          sameGeometry_linkNew.fields.2.2.2.2.1
        rw [Flushable, putCluster_fs, h]
        exact hf
      simp only [bind_run, modify_run, Option.bind_some, writeCluster_eq g₁ nf₁ hin₁, ite_run,
        if_true, flushFat_eq (sameGeometry_putCluster.geometry g₁) nf₁ hf₁]
      rfl
  · rfl

/-! ## Freeing -/

theorem freeLoop_chain {l : List Nat} : ∀ {t : Nat → Nat} {rounds : Nat},
    Linked (fun c => t c % 2 ^ 28) endCluster l → l.Nodup → (∀ c ∈ l, isChained c = true) →
    l.length ≤ rounds → freeLoop rounds (l.headD endCluster) t =
      some fun c => if c ∈ l then 0 else t c := by
  induction l with
  | nil =>
    intro t rounds _ _ _ _
    cases rounds <;> simp [freeLoop, not_isChained_endCluster]
  | cons a l ih =>
    intro t rounds hl hn hc hr
    obtain ⟨rounds, rfl⟩ : ∃ k, rounds = k + 1 := ⟨rounds - 1, by simp at hr; omega⟩
    obtain ⟨ha, hn⟩ := List.nodup_cons.mp hn
    have hnext : t a % 2 ^ 28 = l.headD endCluster := hl.1
    rw [List.headD_cons, freeLoop, if_pos (hc a (by simp)), hnext,
      ih (hl.2.congr fun b hb => ?_) hn (fun b hb => hc b (by simp [hb])) (by simpa using hr)]
    · congr 1
      funext c
      by_cases hca : c = a
      · subst hca
        simp [ha, setEntry]
      · simp [hca, setEntry]
    · have : b ≠ a := fun he => ha (he ▸ hb)
      simp [setEntry, this]

/-- The volume after the clusters of `l` were freed. -/
def freed (w : World) (l : List Nat) : World :=
  flushed (w.setTable fun c => if c ∈ l then 0 else w.fs.fatTable c)

theorem sameGeometry_freed {l : List Nat} : SameGeometry w (freed w l) := ⟨rfl, rfl, rfl, rfl⟩

theorem freed_next {l : List Nat} : nextOf (freed w l) a = if a ∈ l then 0 else nextOf w a := by
  simp only [freed, nextOf, flushed_fs, World.setTable]
  split <;> rfl

theorem clusterBuf_freed (g : Geometry w) {l : List Nat} :
    clusterBuf (freed w l) a = clusterBuf w a := by
  rw [freed, clusterBuf_flushed (sameGeometry_setTable.geometry g)]
  rfl

theorem length_le_of_inRange (g : Geometry w) {l : List Nat} (hn : l.Nodup)
    (hr : ∀ c ∈ l, InRange w c) : l.length ≤ walkLimit := by
  have hsub : l ⊆ List.range w.fs.totalClusters := fun c hc => List.mem_range.mpr (hr c hc).2
  have h₁ := (List.subperm_of_subset hn hsub).length_le
  have h₂ := g.totalClusters_le
  rw [List.length_range] at h₁
  simp only [walkLimit]
  omega

/-- **What `fat32_free_cluster_chain` does** to the head of a chain. -/
theorem freeClusterChain_eq (g : Geometry w) (nf : NoFaults w) (hf : Flushable w) {l : List Nat}
    (hl : Linked (nextOf w) endCluster l) (hn : l.Nodup) (hr : ∀ c ∈ l, InRange w c) {s : Nat}
    (hs : l.head? = some s) : fat32FreeClusterChain s w = some ((), freed w l) := by
  have hhead : l.headD endCluster = s := by
    cases l with
    | nil => cases hs
    | cons b l => exact Option.some.inj hs
  have hsl : s ∈ l := List.mem_of_head? hs
  have hc := (hr s hsl).isChained g
  have hloop := freeLoop_chain (t := w.fs.fatTable) hl hn (fun c hc => (hr c hc).isChained g)
    (length_le_of_inRange g hn hr)
  rw [hhead] at hloop
  have g₁ : Geometry (w.setTable fun c => if c ∈ l then 0 else w.fs.fatTable c) :=
    sameGeometry_setTable.geometry g
  simp only [fat32FreeClusterChain, ite_run, hc, if_true, bind_run, get_run, Option.bind_some,
    hloop, modify_run, flushFat_eq g₁ nf hf, pure_run]
  rfl

/-! ## Every run of calls -/

/-- A volume on which device writes succeed. -/
structure Ready (w : World) : Prop where
  geometry : Geometry w
  noFaults : NoFaults w
  flushable : Flushable w

theorem Ready.of_same {w' : World} (h : Ready w) (hs : SameGeometry w w')
    (hf : w'.faults = w.faults) : Ready w' := by
  refine ⟨hs.geometry h.geometry, fun n => by rw [hf]; exact h.noFaults n, ?_⟩
  rw [Flushable, hs.fields.2.2.2.2.1]
  exact h.flushable

/-- Device and heap answer every request. -/
structure Calm (w : World) : Prop extends Ready w where
  mallocs : Mallocs w

theorem Calm.of_same {w' : World} (h : Calm w) (hs : SameGeometry w w')
    (hf : w'.faults = w.faults) (hm : w'.mallocs = w.mallocs) : Calm w' where
  toReady := h.toReady.of_same hs hf
  mallocs n := by rw [hm]; exact h.mallocs n

/-- `fat32_allocate_cluster(p)` and `fat32_free_cluster_chain(s)` -/
inductive Call
  | allocate (p : Nat)
  | free (s : Nat)

/-- The result of the call; a free has none. -/
def Call.run : Call → Fat Nat
  | .allocate p => fat32AllocateCluster p
  | .free s => do
    fat32FreeClusterChain s
    return 0

/-- Behind nothing or the end of a live chain; from the head of a live chain. -/
def Call.Allowed (cs : List (List Nat)) : Call → Prop
  | .allocate p => p = 0 ∨ ∃ l ∈ cs, l.getLast? = some p
  | .free s => ∃ l ∈ cs, l.head? = some s

/-- A cluster that was free is now in use and reads as zeros. -/
structure Obtained (w : World) (c : Nat) (w' : World) : Prop where
  inRange : InRange w c
  free : nextOf w c = 0
  zeros : fat32ReadCluster c w' = some (some fun _ => 0, w')

/-- What a call does to the chains. -/
inductive Effect (w : World) (w' : World) :
    List (List Nat) → Call → Nat → List (List Nat) → Prop
  | newChain {cs : List (List Nat)} {c : Nat} (h : Obtained w c w')
      (last : nextOf w' c = endCluster) (others : ∀ a, a ≠ c → nextOf w' a = nextOf w a) :
      Effect w w' cs (.allocate 0) c ([c] :: cs)
  | extended {pre post : List (List Nat)} {l : List Nat} {p c : Nat} (h : Obtained w c w')
      (link : nextOf w' p = c) (last : nextOf w' c = endCluster)
      (others : ∀ a, a ≠ p → a ≠ c → nextOf w' a = nextOf w a) :
      Effect w w' (pre ++ (l ++ [p]) :: post) (.allocate p) c (pre ++ (l ++ [p, c]) :: post)
  | refused {cs : List (List Nat)} {p : Nat}
      (why : (∀ c, InRange w c → nextOf w c ≠ 0) ∨ w.mallocs 0 = false)
      (others : ∀ a, nextOf w' a = nextOf w a) : Effect w w' cs (.allocate p) 0 cs
  | freed {pre post : List (List Nat)} {l : List Nat} {s : Nat} (head : l.head? = some s)
      (gone : ∀ a ∈ l, nextOf w' a = 0) (others : ∀ a, a ∉ l → nextOf w' a = nextOf w a) :
      Effect w w' (pre ++ l :: post) (.free s) 0 (pre ++ post)

theorem endCluster_ne_zero : endCluster ≠ 0 := by decide

theorem Effect.chains {w' : World} {cs cs' : List (List Nat)} {call : Call} {r : Nat}
    (h : Effect w w' cs call r cs') (hc : ChainsOf w cs) (hs : SameGeometry w w') :
    ChainsOf w' cs' := by
  have hrange : InRange w' = InRange w := funext fun a => propext hs.inRange
  rw [ChainsOf, hrange]
  cases h with
  | newChain h last others => exact InChains.new hc h.inRange h.free last endCluster_ne_zero others
  | extended h link last others =>
    have hne := h.inRange.1
    exact InChains.extend hc h.inRange h.free link last endCluster_ne_zero (by omega) others
  | refused why others =>
    refine ⟨hc.nonempty, hc.nodup, fun l hl => (hc.linked l hl).congr fun a _ => others a,
      hc.inside, fun a ha => ?_⟩
    rw [others a]
    exact hc.cover a ha
  | freed head gone others => exact InChains.remove hc gone others

theorem allocate_effect {cs : List (List Nat)} (hr : Ready w) (hc : ChainsOf w cs)
    (ha : (Call.allocate p).Allowed cs) :
    ∃ r w' cs', fat32AllocateCluster p w = some (r, w') ∧ Effect w w' cs (.allocate p) r cs' ∧
      SameGeometry w w' ∧ w'.faults = w.faults := by
  rw [allocateCluster_eq hr.geometry hr.noFaults hr.flushable]
  cases hm : w.mallocs 0 with
  | false => exact ⟨0, w.spend, cs, rfl, .refused (.inr hm) fun _ => rfl, sameGeometry_spend, rfl⟩
  | true =>
    cases hfree : findFree w with
    | none =>
      exact ⟨0, w.spend, cs, rfl, .refused (.inl (findFree_none.mp hfree)) fun _ => rfl,
        sameGeometry_spend, rfl⟩
    | some c =>
      obtain ⟨hin, hzero⟩ := findFree_some hfree
      have hlt := hin.lt hr.geometry
      have hg : SameGeometry w (allocated w.spend p c) :=
        sameGeometry_spend.trans sameGeometry_allocated
      have hfaults : (allocated w.spend p c).faults = w.faults := allocated_same.2.2
      have hobt : Obtained w c (allocated w.spend p c) := by
        have hr' := hr.of_same hg hfaults
        refine ⟨hin, hzero, ?_⟩
        rw [readCluster_eq hr'.geometry hr'.noFaults (hg.inRange.mpr hin),
          clusterBuf_allocated_same (sameGeometry_spend.geometry hr.geometry)]
      rcases ha with rfl | ⟨l, hl, hlast⟩
      · -- no chain to hang it on: a chain of its own
        have hnext : ∀ a, nextOf (allocated w.spend 0 c) a =
            if a = c then endCluster else nextOf w a := by
          intro a
          rw [allocated_next hlt (by have := hin.1; omega)]
          rfl
        refine ⟨c, _, [c] :: cs, rfl, .newChain hobt ?_ fun a hac => ?_, hg, hfaults⟩
        · rw [hnext, if_pos rfl]
        · rw [hnext, if_neg hac]
      · -- behind the last cluster of `l`
        obtain ⟨pre, post, rfl⟩ := List.append_of_mem hl
        obtain ⟨l, rfl⟩ := List.getLast?_eq_some_iff.mp hlast
        have hp : p ∈ (pre ++ (l ++ [p]) :: post).flatten := by simp
        have hpin : InRange w p := hc.inside p hp
        have hpc : p ≠ c := fun he => (hc.cover p hpin).mp hp (he ▸ hzero)
        have hnext : ∀ a, nextOf (allocated w.spend p c) a =
            if a = c then endCluster else if a = p then c else nextOf w a := by
          intro a
          rw [allocated_next hlt hpc, hpin.isChained hr.geometry]
          simp only [true_and]
          rfl
        refine ⟨c, _, pre ++ (l ++ [p, c]) :: post, rfl, .extended hobt ?_ ?_ fun a hap hac => ?_,
          hg, hfaults⟩
        · rw [hnext, if_neg hpc, if_pos rfl]
        · rw [hnext, if_pos rfl]
        · rw [hnext, if_neg hac, if_neg hap]

theorem free_effect {cs : List (List Nat)} {s : Nat} (hr : Ready w) (hc : ChainsOf w cs)
    (ha : (Call.free s).Allowed cs) :
    ∃ w' cs', fat32FreeClusterChain s w = some ((), w') ∧ Effect w w' cs (.free s) 0 cs' ∧
      SameGeometry w w' ∧ w'.faults = w.faults := by
  obtain ⟨l, hl, hs⟩ := ha
  obtain ⟨pre, post, rfl⟩ := List.append_of_mem hl
  have hin : ∀ a ∈ l, InRange w a := fun a ha => hc.inside a (List.mem_flatten_of_mem hl ha)
  refine ⟨freed w l, pre ++ post, freeClusterChain_eq hr.geometry hr.noFaults hr.flushable
    (hc.linked l hl) (hc.nodup_of_mem hl) hin hs, ?_, sameGeometry_freed, rfl⟩
  exact .freed hs (fun a ha => by rw [freed_next, if_pos ha])
    fun a ha => by rw [freed_next, if_neg ha]

theorem call_effect {cs : List (List Nat)} {call : Call} (hr : Ready w) (hc : ChainsOf w cs)
    (ha : call.Allowed cs) :
    ∃ r w' cs', call.run w = some (r, w') ∧ Effect w w' cs call r cs' ∧ SameGeometry w w' ∧
      w'.faults = w.faults := by
  cases call with
  | allocate p => exact allocate_effect hr hc ha
  | free s =>
    obtain ⟨w', cs', hrun, he, hg, hf⟩ := free_effect hr hc ha
    refine ⟨0, w', cs', ?_, he, hg, hf⟩
    simp only [Call.run, bind_run, hrun, Option.bind_some, pure_run]

end

/-- One call on a volume with chains `cs`. -/
inductive Step : World × List (List Nat) → World × List (List Nat) → Prop
  | call {w w' : World} {cs cs' : List (List Nat)} {call : Call} {r : Nat}
      (allowed : call.Allowed cs) (ran : call.run w = some (r, w'))
      (effect : Effect w w' cs call r cs') : Step (w, cs) (w', cs')

theorem ready_of_run {s₀ s : World × List (List Nat)} (hr : Ready s₀.1) (hc : ChainsOf s₀.1 s₀.2)
    (run : Relation.ReflTransGen Step s₀ s) : Ready s.1 ∧ ChainsOf s.1 s.2 := by
  induction run with
  | refl => exact ⟨hr, hc⟩
  | tail _ hs ih =>
    cases hs with
    | call allowed ran effect =>
      obtain ⟨r, w', cs', hrun, -, hg, hf⟩ := call_effect ih.1 ih.2 allowed
      obtain ⟨rfl, rfl⟩ := Prod.mk.inj (Option.some.inj (hrun.symm.trans ran))
      exact ⟨ih.1.of_same hg hf, effect.chains ih.2 hg⟩

/-- **The clusters in use stay disjoint chains.** Over every run of allowed calls
with device writes succeeding, the clusters in use form disjoint chains without
a cycle, each ended by the end marker; and from each state reached every
allowed call returns, with one of the effects: a free cluster that reads as
zeros becomes a chain or the end of `p`'s chain, the clusters of a chain are
freed, or 0 is returned because no cluster is free or the buffer of zeros could
not be allocated. -/
theorem cluster_chains_kept {w₀ w : World} {cs₀ cs : List (List Nat)} (hr : Ready w₀)
    (hc : ChainsOf w₀ cs₀) (run : Relation.ReflTransGen Step (w₀, cs₀) (w, cs)) :
    ChainsOf w cs ∧ ∀ call : Call, call.Allowed cs →
      ∃ r w' cs', call.run w = some (r, w') ∧ Effect w w' cs call r cs' ∧ ChainsOf w' cs' := by
  obtain ⟨hr', hc'⟩ := ready_of_run hr hc run
  refine ⟨hc', fun call ha => ?_⟩
  obtain ⟨r, w', cs', hrun, he, hg, -⟩ := call_effect hr' hc' ha
  exact ⟨r, w', cs', hrun, he, he.chains hc' hg⟩

/-! ## A small volume -/

/-- One sector a cluster, two copies of a one-sector table, clusters 2 to 9. -/
def smallVolume (t : Nat → Nat) (mallocs : Nat → Bool) : World where
  fs := ⟨0, 512, 1, 1, 2, 1, 2, 3, 1, 10, true, t⟩
  openFiles _ := ⟨0, 0, 0, 0, 0, 0, 0, 0, 0, false⟩
  mounted := true
  sectors _ _ := 0
  present _ := true
  sectorCount _ := 11
  mallocs := mallocs
  faults _ := none
  heapBytes _ := 0

theorem ready_smallVolume (t : Nat → Nat) (mallocs : Nat → Bool) :
    Ready (smallVolume t mallocs) := by
  have hg : Geometry (smallVolume t mallocs) := by
    constructor <;> simp [smallVolume, sectorSize]
  refine ⟨hg, fun _ => rfl, ?_⟩
  change 1 % 256 ≠ 0
  decide

theorem chainsOf_empty (mallocs : Nat → Bool) : ChainsOf (smallVolume (fun _ => 0) mallocs) [] :=
  ⟨by simp, by simp, by simp, by simp, fun a _ => by simp [nextOf, smallVolume]⟩

/-- Without memory for the zeros, 0 is returned though every cluster is free. -/
theorem allocation_refused_without_memory :
    ¬ ∀ w cs p w', Ready w → ChainsOf w cs → (Call.allocate p).Allowed cs →
      fat32AllocateCluster p w = some (0, w') → ∀ c, InRange w c → nextOf w c ≠ 0 := by
  intro h
  have hr := ready_smallVolume (fun _ => 0) fun _ => false
  have hrun : fat32AllocateCluster 0 (smallVolume (fun _ => 0) fun _ => false) =
      some (0, (smallVolume (fun _ => 0) fun _ => false).spend) := by
    rw [allocateCluster_eq hr.geometry hr.noFaults hr.flushable]
    rfl
  exact h _ [] 0 _ hr (chainsOf_empty _) (.inl rfl) hrun 2 (by decide) rfl

/-- `smallVolume` with a chain 2 → 3 and one of cluster 5 alone. -/
def twoChains : World :=
  smallVolume (fun c => if c = 2 then 3 else if c = 3 ∨ c = 5 then endCluster else 0) fun _ => true

theorem chainsOf_twoChains : ChainsOf twoChains [[2, 3], [5]] := by
  have hcover : ∀ a < 10, 2 ≤ a → (a ∈ ([[2, 3], [5]] : List (List Nat)).flatten ↔
      nextOf twoChains a ≠ 0) := by decide
  refine ⟨by simp, by simp, ?_, ?_, fun a ha => hcover a ha.2 ha.1⟩
  · simp only [List.mem_cons, List.not_mem_nil, or_false, forall_eq_or_imp, forall_eq]
    exact ⟨⟨rfl, rfl, trivial⟩, rfl, trivial⟩
  · simp only [List.flatten_cons, List.flatten_nil, List.append_nil, List.mem_cons,
      List.mem_append, List.not_mem_nil, or_false, or_assoc, forall_eq_or_imp, forall_eq]
    decide

/-- The first chain grows by a cluster, the second is freed. -/
theorem cluster_chains_kept_example : ∃ w, Relation.ReflTransGen Step
    (twoChains, [[2, 3], [5]]) (w, [[2, 3, 4]]) ∧ ChainsOf w [[2, 3, 4]] := by
  have hr : Ready twoChains := ready_smallVolume _ _
  have hgrow : (Call.allocate 3).Allowed [[2, 3], [5]] := .inr ⟨[2, 3], by simp, rfl⟩
  have hfree : (Call.free 5).Allowed [[2, 3, 4], [5]] := ⟨[5], by simp, rfl⟩
  have hfour : (fat32AllocateCluster 3 twoChains).map Prod.fst = some 4 := by decide +kernel
  obtain ⟨r, w₁, cs₁, hrun₁, he₁, hg₁, hf₁⟩ := call_effect hr chainsOf_twoChains hgrow
  have hcall : fat32AllocateCluster 3 twoChains = some (r, w₁) := hrun₁
  rw [hcall, Option.map_some, Option.some_inj] at hfour
  have hcs₁ : cs₁ = [[2, 3, 4], [5]] := by
    generalize hcs : ([[2, 3], [5]] : List (List Nat)) = cs at he₁
    cases he₁ with
    | @extended pre post l =>
      rcases pre with _ | ⟨_, _ | _⟩
      · obtain ⟨hl, rfl⟩ := List.cons.inj hcs
        have hrest : l ++ [3] = [2] ++ [3] := hl.symm
        rw [List.append_cancel_right hrest, show r = 4 from hfour]
        rfl
      · have hlast := congrArg List.getLast? (List.cons.inj (List.cons.inj hcs).2).1
        simp at hlast
      · simp at hcs
    | refused => cases hfour
  subst hcs₁
  have hc₁ := he₁.chains chainsOf_twoChains hg₁
  obtain ⟨r', w₂, cs₂, hrun₂, he₂, -, -⟩ := call_effect (hr.of_same hg₁ hf₁) hc₁ hfree
  have hcs₂ : cs₂ = [[2, 3, 4]] := by
    generalize hcs : ([[2, 3, 4], [5]] : List (List Nat)) = cs at he₂
    cases he₂ with
    | @freed pre post l s head =>
      rcases pre with _ | ⟨_, _ | _⟩
      · obtain ⟨rfl, -⟩ := List.cons.inj hcs
        simp at head
      · simp only [List.cons_append, List.nil_append, List.cons.injEq] at hcs
        obtain ⟨rfl, -, rfl⟩ := hcs
        rfl
      · simp at hcs
  subst hcs₂
  have run := (Relation.ReflTransGen.single (Step.call hgrow hrun₁ he₁)).tail
    (.call hfree hrun₂ he₂)
  exact ⟨w₂, run, (cluster_chains_kept hr chainsOf_twoChains run).1⟩

end ContinuumOS.Fat32.Allocation
