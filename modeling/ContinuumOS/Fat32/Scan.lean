import ContinuumOS.Fat32.Directory
import ContinuumOS.Fat32.Allocation

/-! # A directory as a list of slots

On a well-formed chain the scan of a directory is a fold over the list of its
slots: `reports` is what the callback is told, in order, and `feed` runs the
callback over it. The searches are then searches in that list. -/
namespace ContinuumOS.Fat32.Scan
open ContinuumOS.Lib.Effect ContinuumOS.Lib.Chains ContinuumOS.Libc.String
open ContinuumOS.Fat32.Volume ContinuumOS.Fat32.Device ContinuumOS.Fat32.Allocation
open ContinuumOS.Fat32.Names ContinuumOS.Fat32.Directory

/-- A slot and where it lies. -/
structure Placed where
  cluster : Nat
  index : Nat
  slot : Buf

/-- The `left` slots of a cluster from `index` on. -/
def clusterSlots (buf : Buf) (cluster index left : Nat) : List Placed :=
  (List.range' index left).map fun i => ⟨cluster, i, slotAt buf i⟩

/-- The slots of the clusters of a chain. -/
def dirSlots (w : World) (l : List Nat) : List Placed :=
  l.flatMap fun c => clusterSlots (clusterBuf w c) c 0 (entriesPerCluster w)

/-- The slot does not end the directory. -/
def notEnd (p : Placed) : Bool := slotKind p.slot ≠ .endOfDirectory

/-- The long-name state behind a slot. -/
def lfnAfter (st : Lfn) (e : Buf) : Lfn :=
  if slotKind e = .longName then st.collect e else st.reset

def stateAfter (st : Lfn) (ps : List Placed) : Lfn := ps.foldl (fun st p => lfnAfter st p.slot) st

/-- An entry as the callback is told of it. -/
structure Report where
  place : Placed
  info : FileInfo

/-- The entries among slots that all precede the end of the directory. -/
def reportsOf : Lfn → List Placed → List Report
  | _, [] => []
  | st, p :: ps =>
    if slotKind p.slot = .entry then ⟨p, slotInfo st p.slot⟩ :: reportsOf (lfnAfter st p.slot) ps
    else reportsOf (lfnAfter st p.slot) ps

/-- The entries of a directory. -/
def reports (ps : List Placed) : List Report := reportsOf Lfn.init (ps.takeWhile notEnd)

/-- Runs the callback: `inl` when it stopped the scan. -/
def feed {κ : Type} (callback : Callback κ) : List Report → κ → (Int × κ) ⊕ κ
  | [], context => .inr context
  | r :: rs, context =>
    let (result, context) := callback r.place.slot r.info r.place.cluster r.place.index context
    if result > 0 then .inl (0, context)
    else if result < 0 then .inl (result, context)
    else feed callback rs context

/-- The result of a scan that was stopped or came to its end. -/
def outcome {κ : Type} : (Int × κ) ⊕ κ → Int × κ
  | .inl r => r
  | .inr context => (0, context)

/-- The clusters of the chain that starts at `s`. -/
structure ChainFrom (w : World) (s : Nat) (l : List Nat) : Prop where
  head : l.head? = some s
  linked : ∃ z, isChained z = false ∧ Linked (nextOf w) z l
  inRange : ∀ c ∈ l, InRange w c
  nodup : l.Nodup

section

variable {κ : Type} {callback : Callback κ} {w : World}

theorem reportsOf_append (a b : List Placed) : ∀ st,
    reportsOf st (a ++ b) = reportsOf st a ++ reportsOf (stateAfter st a) b := by
  induction a with
  | nil => intro st; rfl
  | cons p a ih =>
    intro st
    simp only [List.cons_append, reportsOf, ih, stateAfter, List.foldl_cons]
    split <;> rfl

theorem feed_append (a b : List Report) : ∀ context,
    feed callback (a ++ b) context = match feed callback a context with
      | .inl r => .inl r
      | .inr context => feed callback b context := by
  induction a with
  | nil => intro context; rfl
  | cons r a ih =>
    intro context
    simp only [List.cons_append, feed]
    split
    · rfl
    · split
      · rfl
      · exact ih _

/-! ## One cluster -/

theorem clusterSlots_succ (buf : Buf) (cluster index left : Nat) :
    clusterSlots buf cluster index (left + 1) =
      ⟨cluster, index, slotAt buf index⟩ :: clusterSlots buf cluster (index + 1) left := by
  simp [clusterSlots, List.range'_succ]

theorem scanCluster_eq (buf : Buf) (cluster : Nat) : ∀ (left index : Nat) (st : Lfn) (context : κ),
    scanCluster callback buf cluster left index st context =
      match feed callback
        (reportsOf st ((clusterSlots buf cluster index left).takeWhile notEnd)) context with
      | .inl (result, context) => .done result context
      | .inr context =>
        if (clusterSlots buf cluster index left).all notEnd then
          .more (stateAfter st (clusterSlots buf cluster index left)) context
        else .done 0 context
  | 0, index, st, context => by simp [scanCluster, clusterSlots, reportsOf, feed, stateAfter]
  | left + 1, index, st, context => by
    have ih := scanCluster_eq buf cluster left (index + 1)
    rw [clusterSlots_succ, scanCluster]
    cases hk : slotKind (slotAt buf index) with
    | endOfDirectory => simp [notEnd, hk, reportsOf, feed]
    | deleted | volumeId | longName =>
      simp [notEnd, hk, reportsOf, lfnAfter, ih, stateAfter]
    | entry =>
      simp only [notEnd, hk, reportsOf, lfnAfter, stateAfter, ih, List.takeWhile_cons,
        List.all_cons, List.foldl_cons, feed, ne_eq, reduceCtorEq, not_false_eq_true, decide_true,
        if_true, if_false, Bool.true_and]
      split
      · rfl
      · split <;> rfl

/-! ## The whole directory -/

theorem iterateLoop_eq (callback : Callback κ) (g : Geometry w) (nf : NoFaults w) {z : Nat}
    (hz : isChained z = false) :
    ∀ (l : List Nat) (rounds : Nat) (st : Lfn) (context : κ), Linked (nextOf w) z l →
    (∀ c ∈ l, InRange w c) → l.length ≤ rounds →
    iterateLoop callback rounds (l.headD z) st context w =
      some (outcome (feed callback (reportsOf st ((dirSlots w l).takeWhile notEnd)) context), w)
  | [], rounds, st, context, _, _, _ => by
    cases rounds <;> simp [iterateLoop, hz, dirSlots, reportsOf, feed, outcome]
  | c :: l, rounds, st, context, hl, hr, hlen => by
    obtain ⟨rounds, rfl⟩ : ∃ k, rounds = k + 1 := ⟨rounds - 1, by simp at hlen; omega⟩
    have hc := hr c (by simp)
    have ih := iterateLoop_eq callback g nf hz l rounds
    have hnext : fat32GetNextCluster w c = l.headD z := (getNextCluster_eq g hc).trans hl.1
    have hcons : dirSlots w (c :: l) =
        clusterSlots (clusterBuf w c) c 0 (entriesPerCluster w) ++ dirSlots w l := by
      simp [dirSlots]
    rw [List.headD_cons, iterateLoop, hcons]
    simp only [hc.isChained g, not_true_eq_false, if_false, bind_run, readCluster_eq g nf hc,
      Option.bind_some, get_run, scanCluster_eq, ite_run]
    generalize clusterSlots (clusterBuf w c) c 0 (entriesPerCluster w) = slots
    by_cases hall : slots.all notEnd = true
    · -- the scan runs through this cluster
      have htake : slots.takeWhile notEnd = slots :=
        List.takeWhile_eq_self_iff.mpr (List.all_eq_true.mp hall)
      rw [List.takeWhile_append_of_pos (List.all_eq_true.mp hall), reportsOf_append, feed_append,
        htake, hall]
      cases feed callback (reportsOf st slots) context with
      | inl r => rfl
      | inr context =>
        simp only [if_true, hnext]
        cases l with
        | nil => simp [hz, dirSlots, reportsOf, feed, outcome]
        | cons d l =>
          have hd : isChained ((d :: l).headD z) = true := (hr d (by simp)).isChained g
          have hrest := ih (stateAfter st slots) context hl.2 (fun a ha => hr a (by simp [ha]))
            (by simpa using hlen)
          simp only [hd, not_true_eq_false, if_false, ite_run]
          exact hrest
    · -- the directory ends in this cluster
      have htake : (slots ++ dirSlots w l).takeWhile notEnd = slots.takeWhile notEnd := by
        rw [List.takeWhile_append, if_neg]
        intro hlen
        have heq : slots.takeWhile notEnd = slots :=
          (List.takeWhile_prefix notEnd).eq_of_length hlen
        exact hall (List.all_eq_true.mpr (List.takeWhile_eq_self_iff.mp heq))
      rw [htake]
      simp only [hall]
      cases feed callback (reportsOf st (slots.takeWhile notEnd)) context <;> rfl

theorem ChainFrom.length_le (g : Geometry w) {s : Nat} {l : List Nat} (h : ChainFrom w s l) :
    l.length ≤ walkLimit := length_le_of_inRange g h.nodup h.inRange

theorem ChainFrom.headD {s : Nat} {l : List Nat} (h : ChainFrom w s l) (z : Nat) :
    l.headD z = s := by
  have hh := h.head
  cases l with
  | nil => cases hh
  | cons a l => exact Option.some.inj hh

theorem linked_unique {f : Nat → Nat} {z z' : Nat} (hz : isChained z = false)
    (hz' : isChained z' = false) : ∀ {l l' : List Nat}, (∀ c ∈ l, isChained c = true) →
    (∀ c ∈ l', isChained c = true) → Linked f z l → Linked f z' l' → l.headD z = l'.headD z' → l = l'
  | [], [], _, _, _, _, _ => rfl
  | [], b :: l', _, hc', _, _, he => by
    have hb := hc' b (by simp)
    rw [List.headD_nil, List.headD_cons] at he
    rw [← he, hz] at hb
    cases hb
  | a :: l, [], hc, _, _, _, he => by
    have ha := hc a (by simp)
    rw [List.headD_nil, List.headD_cons] at he
    rw [he, hz'] at ha
    cases ha
  | a :: l, b :: l', hc, hc', hl, hl', he => by
    rw [List.headD_cons, List.headD_cons] at he
    subst he
    rw [linked_unique hz hz' (fun c hm => hc c (by simp [hm])) (fun c hm => hc' c (by simp [hm]))
      hl.2 hl'.2 (hl.1.symm.trans hl'.1)]

theorem chainFrom_unique (g : Geometry w) {s : Nat} {l l' : List Nat} (h : ChainFrom w s l)
    (h' : ChainFrom w s l') : l = l' := by
  obtain ⟨z, hz, hl⟩ := h.linked
  obtain ⟨z', hz', hl'⟩ := h'.linked
  exact linked_unique hz hz' (fun c hc => (h.inRange c hc).isChained g)
    (fun c hc => (h'.inRange c hc).isChained g) hl hl' ((h.headD z).trans (h'.headD z').symm)

/-- **A scan runs the callback over the entries of the directory.** -/
theorem iterateDirectory_eq (g : Geometry w) (nf : NoFaults w) (hm : Mallocs w) {s : Nat}
    {l : List Nat} (h : ChainFrom w s l) (context : κ) :
    fat32IterateDirectory s callback context w =
      some (outcome (feed callback (reports (dirSlots w l)) context), w) := by
  obtain ⟨z, hz, hl⟩ := h.linked
  have hloop := iterateLoop_eq callback g nf hz l walkLimit Lfn.init context hl
    h.inRange (h.length_le g)
  rw [h.headD] at hloop
  simp only [fat32IterateDirectory, bind_run, get_run, Option.bind_some,
    hm.kmalloc g.clusterSize_pos, ite_run, if_true, hloop, reports]

/-! ## What is reported -/

theorem mem_dirSlots {l : List Nat} {p : Placed} : p ∈ dirSlots w l ↔
    p.cluster ∈ l ∧ p.index < entriesPerCluster w ∧
      p.slot = slotAt (clusterBuf w p.cluster) p.index := by
  simp only [dirSlots, clusterSlots, List.mem_flatMap, List.mem_map, List.mem_range'_1]
  constructor
  · rintro ⟨c, hc, i, hi, rfl⟩
    exact ⟨hc, (by omega : i < entriesPerCluster w), rfl⟩
  · rintro ⟨hc, hi, hs⟩
    exact ⟨p.cluster, hc, p.index, by omega, by rw [← hs]⟩

theorem mem_reportsOf {ps : List Placed} {r : Report} : ∀ {st : Lfn}, r ∈ reportsOf st ps →
    r.place ∈ ps ∧ slotKind r.place.slot = .entry ∧ ∃ st, r.info = slotInfo st r.place.slot := by
  induction ps with
  | nil => intro st h; cases h
  | cons p ps ih =>
    intro st h
    rw [reportsOf] at h
    split at h
    · rename_i hk
      rcases List.mem_cons.mp h with rfl | h
      · exact ⟨by simp, hk, st, rfl⟩
      · obtain ⟨h₁, h₂⟩ := ih h
        exact ⟨by simp [h₁], h₂⟩
    · obtain ⟨h₁, h₂⟩ := ih h
      exact ⟨by simp [h₁], h₂⟩

theorem mem_reports {ps : List Placed} {r : Report} (h : r ∈ reports ps) :
    r.place ∈ ps ∧ slotKind r.place.slot = .entry ∧ ∃ st, r.info = slotInfo st r.place.slot := by
  obtain ⟨h₁, h₂⟩ := mem_reportsOf h
  exact ⟨(List.takeWhile_prefix _).subset h₁, h₂⟩

theorem slotInfo_of_name {st : Lfn} {e e' : Buf} (h : slotName e' = slotName e) :
    slotInfo st e' = { slotInfo st e with
      attributes := slotAttributes e'
      size := slotFileSize e'
      cluster := slotCluster e' } := by
  have hn : st.Names e' = st.Names e := by rw [Lfn.Names, Lfn.Names, h]
  simp only [slotInfo, hn, h]

/-- A report with the fields of another slot. -/
def Report.withSlot (r : Report) (p : Placed) : Report :=
  ⟨p, { r.info with
    attributes := slotAttributes p.slot
    size := slotFileSize p.slot
    cluster := slotCluster p.slot }⟩

theorem reportsOf_map {g : Placed → Placed} {ps : List Placed}
    (hk : ∀ p ∈ ps, slotKind (g p).slot = slotKind p.slot)
    (hl : ∀ p ∈ ps, slotKind p.slot = .longName → (g p).slot = p.slot)
    (hn : ∀ p ∈ ps, slotName (g p).slot = slotName p.slot) : ∀ st,
    reportsOf st (ps.map g) = (reportsOf st ps).map fun r => r.withSlot (g r.place) := by
  induction ps with
  | nil => intro st; rfl
  | cons p ps ih =>
    intro st
    have ih := ih (fun q hq => hk q (by simp [hq])) (fun q hq => hl q (by simp [hq]))
      fun q hq => hn q (by simp [hq])
    have hafter : lfnAfter st (g p).slot = lfnAfter st p.slot := by
      rw [lfnAfter, lfnAfter, hk p (by simp)]
      split
      · rename_i h
        rw [hl p (by simp) h]
      · rfl
    rw [List.map_cons, reportsOf, reportsOf, hk p (by simp), hafter, ih]
    split
    · rw [List.map_cons, slotInfo_of_name (hn p (by simp))]
      rfl
    · rfl

theorem reports_map {g : Placed → Placed} {ps : List Placed}
    (hk : ∀ p ∈ ps, slotKind (g p).slot = slotKind p.slot)
    (hl : ∀ p ∈ ps, slotKind p.slot = .longName → (g p).slot = p.slot)
    (hn : ∀ p ∈ ps, slotName (g p).slot = slotName p.slot) :
    reports (ps.map g) = (reports ps).map fun r => r.withSlot (g r.place) := by
  have hend : (ps.map g).takeWhile notEnd = (ps.takeWhile notEnd).map g := by
    rw [List.takeWhile_map]
    congr 1
    clear hl hn
    induction ps with
    | nil => rfl
    | cons p ps ih =>
      have hp : (notEnd ∘ g) p = notEnd p := by
        simp only [Function.comp, notEnd, hk p (by simp)]
      rw [List.takeWhile_cons, List.takeWhile_cons, hp, ih fun q hq => hk q (by simp [hq])]
  have hsub : ∀ p, p ∈ ps.takeWhile notEnd → p ∈ ps := fun p hp => (List.takeWhile_prefix _).subset hp
  rw [reports, reports, hend, reportsOf_map (fun p hp => hk p (hsub p hp))
    (fun p hp => hl p (hsub p hp)) fun p hp => hn p (hsub p hp)]

/-! ## The searches -/

theorem feed_find (target : CStr) (rs : List Report) : ∀ found,
    outcome (feed (findCallback target) rs found) =
      (0, match rs.find? fun r => answersTo r.info target with
        | some r => some ⟨r.info, r.place.cluster, r.place.index⟩
        | none => found) := by
  induction rs with
  | nil => intro found; rfl
  | cons r rs ih =>
    intro found
    cases h : answersTo r.info target with
    | true => simp [feed, findCallback, h, outcome]
    | false => simp [feed, findCallback, h, ih]

theorem feed_exists (needle : ShortName) (rs : List Report) :
    outcome (feed (existsCallback needle) rs false) =
      (0, rs.any fun r => slotName r.place.slot = needle) := by
  induction rs with
  | nil => rfl
  | cons r rs ih =>
    by_cases h : slotName r.place.slot = needle
    · simp [feed, existsCallback, h, outcome]
    · simp [feed, existsCallback, h, ih]

/-- The first entry that answers to `name`. -/
def findIn (rs : List Report) (name : CStr) : Option Found :=
  (rs.find? fun r => answersTo r.info name).map fun r => ⟨r.info, r.place.cluster, r.place.index⟩

theorem findIn_some {rs : List Report} {name : CStr} {f : Found} (h : findIn rs name = some f) :
    ∃ r ∈ rs, answersTo r.info name = true ∧ f = ⟨r.info, r.place.cluster, r.place.index⟩ := by
  obtain ⟨r, hr, rfl⟩ := Option.map_eq_some_iff.mp h
  exact ⟨r, List.mem_of_find?_eq_some hr, by simpa using List.find?_some hr, rfl⟩

theorem findEntry_eq (g : Geometry w) (nf : NoFaults w) (hm : Mallocs w) {s : Nat} {l : List Nat}
    (h : ChainFrom w s l) {name : CStr} (hn : name ≠ []) :
    fat32FindEntryInDirectory s name w = some (findIn (reports (dirSlots w l)) name, w) := by
  simp only [fat32FindEntryInDirectory, bind_run, get_run, Option.bind_some, g.mounted, hn,
    not_true_eq_false, or_self, if_false, iterateDirectory_eq g nf hm h, feed_find, ite_run,
    pure_run, findIn, Int.lt_irrefl]
  cases (reports (dirSlots w l)).find? fun r => answersTo r.info name <;> rfl

end

/-! ## A root directory with given slots -/

/-- Cluster 2 of the small volume, the root directory, holds `slots`. -/
def rootVolume (slots : List Buf) : World :=
  { smallVolume (fun _ => 0) fun _ => true with
    sectors := fun _ a => if 1536 ≤ a ∧ a < 2048 then
      slots.getD ((a - 1536) / 32) (fun _ => 0) ((a - 1536) % 32) else 0 }

theorem geometry_rootVolume (slots : List Buf) : Geometry (rootVolume slots) :=
  SameGeometry.geometry (w := smallVolume (fun _ => 0) fun _ => true) ⟨rfl, rfl, rfl, rfl⟩
    (ready_smallVolume _ _).geometry

theorem chainFrom_rootVolume (slots : List Buf) : ChainFrom (rootVolume slots) 2 [2] where
  head := rfl
  linked := ⟨0, rfl, rfl, trivial⟩
  inRange c hc := by
    rw [List.mem_singleton.mp hc]
    exact ⟨Nat.le_refl 2, show 2 < 10 by decide⟩
  nodup := by simp

theorem dirSlots_rootVolume {slots : List Buf} (h : ∀ e ∈ slots, ∀ i, slotSize ≤ i → e i = 0) :
    dirSlots (rootVolume slots) [2] =
      (List.range' 0 16).map fun i => ⟨2, i, slots.getD i fun _ => 0⟩ := by
  have hn : entriesPerCluster (rootVolume slots) = 16 := by
    change 1 * 512 / 32 = 16
    decide
  rw [dirSlots, List.flatMap_singleton, clusterSlots, hn]
  refine List.map_congr_left fun i hi => ?_
  have hi : i < 16 := by
    have := (List.mem_range'_1.mp hi).2
    simpa using this
  congr 1
  funext j
  by_cases hj : j < slotSize
  · have hj' : j < 32 := hj
    have hin : i * slotSize + j < (rootVolume slots).fs.sectorsPerCluster * sectorSize := by
      change i * 32 + j < 1 * 512
      omega
    have haddr : clusterAddr (rootVolume slots) 2 = 1536 := by
      change (3 + (2 - 2) * 1) * 512 = 1536
      decide
    rw [slotAt, if_pos hj, clusterBuf_inside hin, haddr, slotSize]
    simp only [rootVolume]
    rw [if_pos (by omega), show (1536 + (i * 32 + j) - 1536) / 32 = i by omega,
      show (1536 + (i * 32 + j) - 1536) % 32 = j by omega]
  · rw [slotAt_outside _ _ (Nat.not_lt.mp hj)]
    rw [List.getD_eq_getElem?_getD]
    cases hs : slots[i]? with
    | none => rfl
    | some e => exact (h e (List.mem_of_getElem? hs) j (Nat.not_lt.mp hj)).symm

end ContinuumOS.Fat32.Scan
