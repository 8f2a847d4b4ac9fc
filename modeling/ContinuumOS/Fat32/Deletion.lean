import ContinuumOS.Lib.Scanning
import ContinuumOS.Fat32.Insertion

/-! # Slots and chains that are given up

What `fat32_remove` and `fat32_rmdir_path` do to the table and to the directory
that held the entry: the chain of the entry is freed, its slot is marked, and so
are the long-name slots directly before it, over the clusters of the directory. -/
namespace ContinuumOS.Fat32.Deletion
open ContinuumOS.Lib.Effect ContinuumOS.Lib.Memory ContinuumOS.Lib.Chains ContinuumOS.Lib.MapEnd
open ContinuumOS.Fat32.Volume ContinuumOS.Fat32.Device ContinuumOS.Fat32.Allocation
open ContinuumOS.Fat32.Names ContinuumOS.Fat32.Directory ContinuumOS.Fat32.Scan
open ContinuumOS.Fat32.Paths ContinuumOS.Fat32.Search ContinuumOS.Fat32.Insertion

section

variable {w w' w'' : World} {s c : Nat} {l l' : List Nat}

/-! ## Freeing a chain -/

theorem freeLoop_linked {z : Nat} (hz : isChained z = false) : ∀ {l : List Nat} {t : Nat → Nat}
    {rounds : Nat}, Linked (fun c => t c % 2 ^ 28) z l → l.Nodup →
    (∀ c ∈ l, isChained c = true) → l.length ≤ rounds →
    freeLoop rounds (l.headD z) t = some fun c => if c ∈ l then 0 else t c
  | [], t, rounds, _, _, _, _ => by cases rounds <;> simp [freeLoop, hz]
  | a :: l, t, rounds, hl, hn, hc, hr => by
    obtain ⟨rounds, rfl⟩ : ∃ k, rounds = k + 1 := ⟨rounds - 1, by simp at hr; omega⟩
    obtain ⟨ha, hn⟩ := List.nodup_cons.mp hn
    have hnext : t a % 2 ^ 28 = l.headD z := hl.1
    have hkeep : ∀ b ∈ l, setEntry t a 0 b = t b := fun b hb =>
      if_neg fun he : b = a => ha (he ▸ hb)
    have hl' : Linked (fun c => setEntry t a 0 c % 2 ^ 28) z l :=
      hl.2.congr fun b hb => congrArg (· % 2 ^ 28) (hkeep b hb)
    have hr' : l.length ≤ rounds := by simpa using hr
    have ih := freeLoop_linked hz hl' hn (fun b hb => hc b (by simp [hb])) hr'
    rw [List.headD_cons, freeLoop, if_pos (hc a (by simp)), hnext, ih]
    congr 1
    funext c
    by_cases hca : c = a
    · subst hca
      simp [ha, setEntry]
    · simp [hca, setEntry]

theorem freeChain_eq (hw : Ready w) (h : ChainFrom w s l) :
    fat32FreeClusterChain s w = some ((), freed w l) := by
  obtain ⟨z, hz, hl⟩ := h.linked
  have hs : isChained s = true :=
    (h.inRange s (List.mem_of_head? h.head)).isChained hw.geometry
  have hloop := freeLoop_linked (t := w.fs.fatTable) hz hl h.nodup
    (fun c hc => (h.inRange c hc).isChained hw.geometry) (h.length_le hw.geometry)
  rw [h.headD] at hloop
  have hg : Geometry (w.setTable fun c => if c ∈ l then 0 else w.fs.fatTable c) :=
    sameGeometry_setTable.geometry hw.geometry
  simp only [fat32FreeClusterChain, ite_run, hs, if_true, bind_run, get_run, Option.bind_some,
    hloop, modify_run, flushFat_eq hg hw.noFaults hw.flushable, pure_run]
  rfl

theorem freeChain_unchained (hs : isChained s = false) :
    fat32FreeClusterChain s w = some ((), w) := by
  rw [fat32FreeClusterChain, hs]
  rfl

/-! ## Marking the slots of a cluster -/

/-- A slot that was given up. -/
def erased (p : Placed) : Placed := ⟨p.cluster, p.index, writeByte p.slot 0 0xE5⟩

/-- A slot of a long name. -/
def isLfnSlot (p : Placed) : Bool := slotKind p.slot == .longName

theorem slotKind_longName {e : Buf} :
    slotKind e = .longName ↔ isLongName e = true ∧ e 0 ≠ 0xE5 ∧ e 0 ≠ 0x00 := by
  rw [slotKind]
  split
  · rename_i h
    simp [h]
  · rename_i h₀
    split
    · rename_i h
      simp [h]
    · rename_i h₁
      split
      · rename_i h₂
        simp [h₀, h₁, h₂]
      · rename_i h₂
        split <;> simp [h₂]

theorem slotAt_markSlot_same (buf : Buf) (i : Nat) :
    slotAt (markSlot buf i) i = writeByte (slotAt buf i) 0 0xE5 := by
  funext j
  by_cases hj : j < slotSize
  · by_cases h0 : j = 0
    · subst h0
      rw [slotAt, if_pos hj, writeByte_same, markSlot, Nat.add_zero, writeByte_same]
    · rw [slotAt, if_pos hj, writeByte_outside h0, markSlot, writeByte_outside (by omega), slotAt,
        if_pos hj]
  · have hj' : slotSize ≤ j := Nat.not_lt.mp hj
    have h0 : j ≠ 0 := by
      simp only [slotSize] at hj'
      omega
    rw [slotAt_outside _ _ hj', writeByte_outside h0, slotAt_outside _ _ hj']

theorem slotAt_markSlot_other {i j : Nat} (buf : Buf) (h : j ≠ i) :
    slotAt (markSlot buf i) j = slotAt buf j := by
  funext k
  by_cases hk : k < slotSize
  · rw [slotAt, slotAt, if_pos hk, if_pos hk, markSlot, writeByte_outside]
    simp only [slotSize] at *
    omega
  · rw [slotAt_outside _ _ (Nat.not_lt.mp hk), slotAt_outside _ _ (Nat.not_lt.mp hk)]

theorem clusterSlots_concat (buf : Buf) (c left : Nat) : clusterSlots buf c 0 (left + 1) =
    clusterSlots buf c 0 left ++ [⟨c, left, slotAt buf left⟩] := by
  rw [clusterSlots, List.range'_concat, List.map_append, Nat.zero_add, Nat.one_mul]
  rfl

theorem clusterSlots_congr {buf buf' : Buf} {c i n : Nat}
    (h : ∀ j, i ≤ j → j < i + n → slotAt buf' j = slotAt buf j) :
    clusterSlots buf' c i n = clusterSlots buf c i n := by
  refine List.map_congr_left fun j hj => ?_
  obtain ⟨h₁, h₂⟩ := List.mem_range'_1.mp hj
  rw [h j h₁ h₂]

/-- What the loop over the slots of one cluster does. -/
structure ErasedSlots (buf : Buf) (c left : Nat) (dirty : Bool) (r : Buf × Bool × Bool) : Prop where
  slots : clusterSlots r.1 c 0 left = mapEnd isLfnSlot erased (clusterSlots buf c 0 left)
  behind : ∀ j, left ≤ j → slotAt r.1 j = slotAt buf j
  outside : ∀ j, left * slotSize ≤ j → r.1 j = buf j
  clean : r.2.1 = false → dirty = false ∧ r.1 = buf
  front : r.2.2 = (clusterSlots buf c 0 left).all isLfnSlot

theorem eraseLfnSlots_erases (c : Nat) : ∀ (left : Nat) (buf : Buf) (dirty : Bool),
    ErasedSlots buf c left dirty (eraseLfnSlots left buf dirty)
  | 0, buf, dirty => ⟨rfl, fun _ _ => rfl, fun _ _ => rfl, fun h => ⟨h, rfl⟩, rfl⟩
  | left + 1, buf, dirty => by
    have hkind : isLfnSlot ⟨c, left, slotAt buf left⟩ = true ↔
        isLongName (slotAt buf left) = true ∧ slotAt buf left 0 ≠ 0xE5 ∧ slotAt buf left 0 ≠ 0x00 := by
      rw [isLfnSlot, beq_iff_eq, slotKind_longName]
    rw [eraseLfnSlots]
    split
    · rename_i h
      have hlfn := hkind.mpr h
      have ih := eraseLfnSlots_erases c left (markSlot buf left) true
      have hbefore : clusterSlots (markSlot buf left) c 0 left = clusterSlots buf c 0 left :=
        clusterSlots_congr fun j _ hj => slotAt_markSlot_other buf (by omega)
      have hlast : (⟨c, left, slotAt (markSlot buf left) left⟩ : Placed) =
          erased ⟨c, left, slotAt buf left⟩ := by
        rw [slotAt_markSlot_same]
        rfl
      refine ⟨?_, fun j hj => ?_, fun j hj => ?_, fun hd => ?_, ?_⟩
      · rw [clusterSlots_concat, ih.slots, hbefore, ih.behind left (Nat.le_refl _), hlast,
          clusterSlots_concat, mapEnd_concat_pos hlfn]
      · rw [ih.behind j (by omega), slotAt_markSlot_other buf (by omega)]
      · have hne : j ≠ left * slotSize := by
          simp only [slotSize] at *
          omega
        rw [ih.outside j (by simp only [slotSize] at *; omega), markSlot, writeByte_outside hne]
      · cases (ih.clean hd).1
      · rw [ih.front, hbefore, clusterSlots_concat, List.all_append, List.all_cons, hlfn]
        simp
    · rename_i h
      have hlfn : isLfnSlot ⟨c, left, slotAt buf left⟩ = false :=
        Bool.eq_false_iff.mpr fun ht => h (hkind.mp ht)
      refine ⟨?_, fun _ _ => rfl, fun _ _ => rfl, fun h => ⟨h, rfl⟩, ?_⟩
      · rw [clusterSlots_concat, mapEnd_concat_neg hlfn]
      · rw [clusterSlots_concat, List.all_append, List.all_cons, hlfn]
        simp

/-! ## The clusters before -/

theorem findPreviousLoop_eq (g : Geometry w) {z target : Nat} {rest : List Nat} :
    ∀ (zs : List Nat) (x rounds : Nat), Linked (nextOf w) z (x :: zs ++ target :: rest) →
    (∀ c ∈ x :: zs ++ target :: rest, InRange w c) → target ∉ zs → zs.length < rounds →
    findPreviousLoop w target rounds x = some ((x :: zs).getLastD 0)
  | [], x, rounds + 1, hl, hin, _, _ => by
    have hx := hin x (by simp)
    have hnext : fat32GetNextCluster w x = target := (getNextCluster_eq g hx).trans hl.1
    rw [findPreviousLoop, if_pos (hx.isChained g)]
    simp only [hnext, if_true]
    rfl
  | y :: ys, x, rounds + 1, hl, hin, hout, hr => by
    have hx := hin x (by simp)
    have hy := hin y (by simp)
    have hnext : fat32GetNextCluster w x = y := (getNextCluster_eq g hx).trans hl.1
    have hne : y ≠ target := fun he => hout (by simp [he])
    have ih := findPreviousLoop_eq g ys y rounds hl.2 (fun c hc => hin c (by simp at hc ⊢; tauto))
      (fun hm => hout (by simp [hm])) (by simpa using hr)
    rw [findPreviousLoop, if_pos (hx.isChained g)]
    simp only [hnext, hne, if_false, hy.isChained g, if_true, ih]
    rfl

theorem findPrevious_eq (hw : Ready w) {a rest : List Nat} (h : ChainFrom w s (a ++ c :: rest)) :
    fat32DirectoryFindPreviousCluster w s c = some (a.getLastD 0) := by
  rw [fat32DirectoryFindPreviousCluster]
  cases a with
  | nil => rw [if_pos (Option.some.inj h.head).symm]; rfl
  | cons x zs =>
    obtain ⟨z, -, hl⟩ := h.linked
    obtain rfl : x = s := Option.some.inj h.head
    have hlen := h.length_le hw.geometry
    have hdis := (List.nodup_append.mp h.nodup).2.2
    have hout : c ∉ zs := fun hm => hdis c (by simp [hm]) c (by simp) rfl
    rw [if_neg fun he : x = c => hdis x (by simp) c (by simp) he]
    refine findPreviousLoop_eq hw.geometry zs x walkLimit hl h.inRange hout ?_
    rw [List.length_append, List.length_cons] at hlen
    omega

theorem dirSlots_cons (w : World) (c : Nat) (rest : List Nat) : dirSlots w (c :: rest) =
    clusterSlots (clusterBuf w c) c 0 (entriesPerCluster w) ++ dirSlots w rest := List.flatMap_cons

theorem clusterSlots_split (buf : Buf) (c : Nat) {left n : Nat} (h : left ≤ n) :
    clusterSlots buf c 0 n = clusterSlots buf c 0 left ++ clusterSlots buf c left (n - left) := by
  rw [clusterSlots, clusterSlots, clusterSlots, ← List.map_append]
  congr 1
  have := List.range'_append_1 (s := 0) (m := left) (n := n - left)
  rw [Nat.zero_add] at this
  rw [this]
  congr 1
  omega

/-- The slots of a directory behind the first `left` ones of cluster `c`. -/
def slotsBehind (w : World) (c left : Nat) (rest : List Nat) : List Placed :=
  clusterSlots (clusterBuf w c) c left (entriesPerCluster w - left) ++ dirSlots w rest

/-- The slots behind the place stay, and of those before it the long-name slots are marked,
back to the first other slot. -/
structure ErasedBack (w : World) (a : List Nat) (c : Nat) (rest : List Nat) (left : Nat)
    (w' : World) : Prop where
  rewritten : Rewritten w (a ++ c :: rest) w'
  slots : dirSlots w' (a ++ c :: rest) =
    mapEnd isLfnSlot erased (dirSlots w a ++ clusterSlots (clusterBuf w c) c 0 left) ++
      slotsBehind w c left rest

/-- The same in cluster `c` alone. -/
structure ErasedHere (w : World) (a : List Nat) (c : Nat) (rest : List Nat) (left : Nat)
    (w' : World) : Prop where
  rewritten : Rewritten w (a ++ c :: rest) w'
  before : dirSlots w' a = dirSlots w a
  here : dirSlots w' (c :: rest) =
    mapEnd isLfnSlot erased (clusterSlots (clusterBuf w c) c 0 left) ++ slotsBehind w c left rest

section

variable {a rest : List Nat} {left : Nat}

theorem ErasedSlots.outside_cluster {buf : Buf} {dirty front : Bool} (hw : Ready w)
    (hleft : left ≤ entriesPerCluster w)
    (her : ErasedSlots (clusterBuf w c) c left false (buf, dirty, front)) {i : Nat}
    (hi : w.fs.sectorsPerCluster * sectorSize ≤ i) : buf i = 0 := by
  have hfit : left * slotSize ≤ i := by
    have h₁ : left * slotSize ≤ entriesPerCluster w * slotSize := Nat.mul_le_mul_right _ hleft
    have h₂ := Nat.div_mul_le_self (clusterSize w) slotSize
    rw [hw.geometry.clusterSize_eq] at h₂
    rw [entriesPerCluster, hw.geometry.clusterSize_eq] at h₁
    omega
  exact (her.outside i hfit).trans (clusterBuf_outside hi)

/-- The volume after the cluster was written, if a slot of it was marked. -/
theorem erasedHere_pending {buf : Buf} {dirty front : Bool} (hw : Ready w)
    (h : UsedChain w s (a ++ c :: rest)) (hleft : left ≤ entriesPerCluster w)
    (her : ErasedSlots (clusterBuf w c) c left false (buf, dirty, front)) :
    ErasedHere w a c rest left (pending w c buf dirty) := by
  have hcin : InRange w c := h.inRange c (by simp)
  have hsame : clusterBuf (pending w c buf dirty) c = buf := by
    cases dirty with
    | true => exact clusterBuf_putCluster w c fun i hi => her.outside_cluster hw hleft hi
    | false => exact (her.clean rfl).2.symm
  obtain ⟨hslots, hbehind, -, -, -⟩ := her
  dsimp only at hslots hbehind
  have hpend : Rewritten w (a ++ c :: rest) (pending w c buf dirty) := by
    cases dirty with
    | true => exact .putCluster w buf hcin.1 (by simp)
    | false => exact .refl w _
  have hother : ∀ d, d ≠ c → 2 ≤ d → clusterBuf (pending w c buf dirty) d = clusterBuf w d := by
    intro d hd h2
    cases dirty with
    | true => exact clusterBuf_putCluster_other hcin.1 h2 hd
    | false => rfl
  have hdis := (List.nodup_append.mp h.nodup)
  have hca : c ∉ a := fun hm => hdis.2.2 c hm c (by simp) rfl
  have hcr : c ∉ rest := (List.nodup_cons.mp hdis.2.1).1
  refine ⟨hpend, dirSlots_congr hpend.same fun d hd =>
    hother d (fun he => hca (he ▸ hd)) (h.inRange d (by simp [hd])).1, ?_⟩
  have hkeep : dirSlots (pending w c buf dirty) rest = dirSlots w rest :=
    dirSlots_congr hpend.same fun d hd =>
      hother d (fun he => hcr (he ▸ hd)) (h.inRange d (by simp [hd])).1
  have hback : clusterSlots buf c left (entriesPerCluster w - left) =
      clusterSlots (clusterBuf w c) c left (entriesPerCluster w - left) :=
    clusterSlots_congr fun j hj _ => hbehind j hj
  rw [dirSlots_cons, hsame, entriesPerCluster_same hpend.same, clusterSlots_split buf c hleft,
    hslots, hback, hkeep, List.append_assoc]
  rfl

/-- A slot of the cluster is no long-name slot. -/
theorem ErasedHere.stopped (h : ErasedHere w a c rest left w')
    (hstop : (clusterSlots (clusterBuf w c) c 0 left).all isLfnSlot = false) :
    ErasedBack w a c rest left w' := by
  refine ⟨h.rewritten, ?_⟩
  rw [dirSlots_append, h.before, h.here, mapEnd_append_some (by simpa using hstop),
    List.append_assoc]

/-- No cluster comes before. -/
theorem ErasedHere.front (h : ErasedHere w [] c rest left w') :
    ErasedBack w [] c rest left w' :=
  ⟨h.rewritten, h.here⟩

/-- All slots of the cluster are long-name slots; the loop went on in cluster `p` before. -/
theorem ErasedHere.further {p : Nat} (h : ErasedHere w (a ++ [p]) c rest left w')
    (hall : (clusterSlots (clusterBuf w c) c 0 left).all isLfnSlot = true)
    (hback : ErasedBack w' a p (c :: rest) (entriesPerCluster w') w'') :
    ErasedBack w (a ++ [p]) c rest left w'' := by
  obtain ⟨hrw, hslots⟩ := hback
  have hsplit : a ++ [p] ++ c :: rest = a ++ p :: (c :: rest) := by simp
  rw [← hsplit] at hrw hslots
  have hfront : dirSlots w' a ++ clusterSlots (clusterBuf w' p) p 0 (entriesPerCluster w') =
      dirSlots w (a ++ [p]) := by
    rw [← h.before, dirSlots_append, dirSlots_cons]
    simp [dirSlots]
  have hall : ∀ q ∈ clusterSlots (clusterBuf w c) c 0 left, isLfnSlot q = true := by
    simpa using hall
  have hhere : mapEnd isLfnSlot erased (clusterSlots (clusterBuf w c) c 0 left) =
      (clusterSlots (clusterBuf w c) c 0 left).map erased := mapEnd_append_all (a := []) hall
  refine ⟨h.rewritten.trans hrw, hslots.trans ?_⟩
  rw [hfront, slotsBehind, Nat.sub_self, h.here, hhere, mapEnd_append_all hall, List.append_assoc]
  rfl

/-- The cluster is written if a slot of it was marked. -/
theorem triple_writePending {α : Type} {k : Bool → Fat α} {Q : α → World → Prop} {buf : Buf}
    {dirty : Bool} (hw : Ready w) (hc : InRange w c)
    (hk : Triple (fun t => t = pending w c buf dirty) (k true) Q) :
    Triple (fun t => t = w)
      (if dirty = true then fat32WriteCluster c buf >>= k else pure true >>= k) Q := by
  rintro t rfl a t' hr
  refine hk _ rfl a t' ?_
  rw [ite_run, bind_run, bind_run, writeCluster_eq hw.geometry hw.noFaults hc] at hr
  cases dirty with
  | true => exact hr
  | false => exact hr

theorem triple_readCluster {α : Type} {k : Option Buf → Fat α} {Q : α → World → Prop}
    (hw : Ready w) (hc : InRange w c)
    (hk : Triple (fun t => t = w) (k (some (clusterBuf w c))) Q) :
    Triple (fun t => t = w) (fat32ReadCluster c >>= k) Q := by
  rintro t rfl a t' hr
  rw [bind_run, readCluster_eq hw.geometry hw.noFaults hc] at hr
  exact hk _ rfl a t' hr

end

/-- **The long-name slots before a place are marked**, back to the first other slot. -/
theorem eraseLfnLoop_erases (rounds : Nat) : ∀ (c left : Nat) (a rest : List Nat) (w : World),
    Ready w → UsedChain w s (a ++ c :: rest) → left ≤ entriesPerCluster w →
    Triple (fun t => t = w) (eraseLfnLoop s rounds c left (clusterBuf w c)) fun ok w' =>
      ok = true ∧ ErasedBack w a c rest left w' := by
  induction rounds with
  | zero => exact fun _ _ _ _ _ _ _ _ => .diverge
  | succ rounds ih =>
    intro c left a rest w hw h hleft
    have hcin : InRange w c := h.inRange c (by simp)
    have her := eraseLfnSlots_erases c left (clusterBuf w c) false
    rw [eraseLfnLoop]
    generalize eraseLfnSlots left (clusterBuf w c) false = r at her
    obtain ⟨buf, dirty, front⟩ := r
    obtain rfl : front = _ := her.front
    have hhere := erasedHere_pending hw h hleft her
    dsimp only
    refine triple_writePending hw hcin ?_
    generalize pending w c buf dirty = w₁ at hhere ⊢
    have hchain := h.congr hhere.rewritten.same fun d _ => hhere.rewritten.next d
    have hready := hhere.rewritten.ready hw
    refine .ite (fun hn => absurd rfl hn) fun _ => .ite (fun hstop => .pure fun t ht => ?_)
      fun hall => .get_bind fun t ht => ?_
    · -- the pass stopped in this cluster
      exact ⟨rfl, ht ▸ hhere.stopped (Bool.eq_false_iff.mpr hstop)⟩
    obtain rfl := ht.symm
    rw [findPrevious_eq hready hchain.toChainFrom]
    dsimp only
    rcases List.eq_nil_or_concat a with rfl | ⟨m, p, rfl⟩
    · -- it came to the front of the directory
      refine .ite (fun _ => .pure fun t ht => ?_) fun hn => absurd (Nat.zero_lt_two) hn
      exact ⟨rfl, ht ▸ hhere.front⟩
    · -- it goes on in the cluster before
      rw [List.concat_eq_append] at *
      have hpin := hchain.inRange p (by simp)
      rw [List.getLastD_concat]
      refine .ite (fun hn => absurd hpin.1 (by omega)) fun _ => ?_
      refine triple_readCluster hready hpin ?_
      have hsplit : m ++ [p] ++ c :: rest = m ++ p :: (c :: rest) := by simp
      rw [hsplit] at hchain
      refine (ih p _ m (c :: rest) _ hready hchain (Nat.le_refl _)).post fun ok w' hw' => ?_
      exact ⟨hw'.1, hhere.further (by simpa using hall) hw'.2⟩

/-! ## Giving up an entry -/

/-- A slot divides the slots of its directory like its place divides the chain. -/
theorem exists_place {p : Placed} (hp : p ∈ dirSlots w l) : ∃ a rest, l = a ++ p.cluster :: rest ∧
    dirSlots w l = (dirSlots w a ++ clusterSlots (clusterBuf w p.cluster) p.cluster 0 p.index) ++
      p :: slotsBehind w p.cluster (p.index + 1) rest := by
  obtain ⟨hc, hi, hs⟩ := mem_dirSlots.mp hp
  obtain ⟨a, rest, rfl⟩ := List.append_of_mem hc
  refine ⟨a, rest, rfl, ?_⟩
  have hfront := clusterSlots_concat (clusterBuf w p.cluster) p.cluster p.index
  rw [← hs] at hfront
  rw [dirSlots_append, dirSlots_cons, clusterSlots_split _ _ (Nat.succ_le_of_lt hi), hfront,
    slotsBehind]
  simp

theorem place_unique {p q : Placed} {pre post pre' post' : List Placed} (hn : l.Nodup)
    (h : dirSlots w l = pre ++ p :: post) (h' : dirSlots w l = pre' ++ q :: post')
    (hpq : locationOf p = locationOf q) : pre = pre' ∧ p = q ∧ post = post' := by
  have hnodup := nodup_locations (w := w) hn
  rw [h] at hnodup
  rw [List.map_append, List.map_cons, hpq] at hnodup
  obtain ⟨-, hpost, hpre⟩ := List.nodup_append.mp hnodup
  refine (List.append_cons_inj_of_notMem (fun hm => ?_) fun hm => ?_).mp (h.symm.trans h')
  · exact hpre _ (List.mem_map_of_mem hm) _ (by simp) rfl
  · exact (List.nodup_cons.mp hpost).1 (List.mem_map_of_mem hm)

/-- The slot `p` of a directory was marked, and the long-name slots before it. -/
structure Unlisted (w : World) (l : List Nat) (pre : List Placed) (p : Placed) (post : List Placed)
    (w' : World) : Prop where
  rewritten : Rewritten w l w'
  slots : dirSlots w' l = mapEnd isLfnSlot erased pre ++ erased p :: post

theorem Rewritten.of_quiet (hq : Quiet w w') (h : Rewritten w' l w'') : Rewritten w l w'' := by
  obtain ⟨m, rfl⟩ := hq
  exact ⟨⟨h.same.fs, h.same.mounted, h.same.present, h.same.sectorCount⟩, h.faults, h.openFiles,
    h.next, h.bytes⟩

/-- **An entry is marked as deleted**, if the heap has a buffer. -/
theorem markEntryDeleted_unlists (hw : Ready w) (h : UsedChain w s l) {p : Placed}
    {pre post : List Placed} (hslots : dirSlots w l = pre ++ p :: post) :
    Triple (fun t => t = w) (fat32MarkEntryDeleted s p.cluster p.index) fun ok w' =>
      if ok then Unlisted w l pre p post w' else w.mallocs 0 = false ∧ Quiet w w' := by
  have hp : p ∈ dirSlots w l := by simp [hslots]
  obtain ⟨hc, hi, hslot⟩ := mem_dirSlots.mp hp
  obtain ⟨a, rest, hl, hplace⟩ := exists_place hp
  obtain ⟨hpre, -, hpost⟩ := place_unique h.nodup hslots hplace rfl
  have hsize : clusterSize w ≠ 0 := Nat.pos_iff_ne_zero.mp hw.geometry.clusterSize_pos
  have hq : Quiet w w.spend := (Quiet.refl w).spend
  have hws := ready_quiet hw hq
  have hin : InRange w.spend p.cluster := hq.same.inRange.mpr (h.inRange _ hc)
  rintro t ht ok w' hr
  obtain rfl := ht.symm
  rw [fat32MarkEntryDeleted] at hr
  simp only [bind_run, get_run, Option.bind_some, kmalloc, hsize, if_false, ite_run, pure_run] at hr
  split at hr
  · rw [readCluster_eq hws.geometry hws.noFaults hin] at hr
    simp only [Option.bind_some, bind_run, writeCluster_eq hws.geometry hws.noFaults hin, ite_run,
      if_true] at hr
    -- the volume with the entry marked
    generalize hbuf : markSlot (clusterBuf w.spend p.cluster) p.index = buf at hr
    have hput : Rewritten w.spend l (putCluster w.spend p.cluster buf) := .putCluster _ _ hin.1 hc
    have hfit := slot_inside hws.geometry (i := p.index) hi
    have hsame : clusterBuf (putCluster w.spend p.cluster buf) p.cluster = buf := by
      refine clusterBuf_putCluster _ _ fun i hi => ?_
      have hne : i ≠ p.index * slotSize := by
        simp only [slotSize] at hfit
        simp only [slotSize]
        omega
      rw [← hbuf, markSlot, writeByte_outside hne]
      exact clusterBuf_outside hi
    have hother : ∀ d ∈ l, d ≠ p.cluster →
        clusterBuf (putCluster w.spend p.cluster buf) d = clusterBuf w d := fun d hd hne =>
      clusterBuf_putCluster_other hin.1 (h.inRange d hd).1 hne
    have hchain : UsedChain (putCluster w.spend p.cluster buf) s (a ++ p.cluster :: rest) :=
      hl ▸ (Extended.quiet h hq).chain.congr hput.same fun d _ => hput.next d
    have herase := eraseLfnLoop_erases walkLimit p.cluster p.index a rest _ (hput.ready hws) hchain
      (Nat.le_of_lt hi) _ rfl ok w' (by rw [hsame]; exact hr)
    obtain ⟨rfl, ⟨hrw, hs⟩⟩ := herase
    rw [← hl] at hrw hs
    refine ⟨Rewritten.of_quiet hq (hput.trans hrw), hs.trans ?_⟩
    have hg := hq.same.trans hput.same
    have hper := entriesPerCluster_same hg
    have hdis := List.nodup_append.mp (hl ▸ h.nodup)
    have hfront : dirSlots (putCluster w.spend p.cluster buf) a = dirSlots w a := by
      refine dirSlots_congr hg fun d hd => hother d (by rw [hl]; simp [hd]) ?_
      exact fun he => hdis.2.2 d hd p.cluster (by simp) he
    have hback : dirSlots (putCluster w.spend p.cluster buf) rest = dirSlots w rest := by
      refine dirSlots_congr hg fun d hd => hother d (by rw [hl]; simp [hd]) ?_
      exact fun he => (List.nodup_cons.mp hdis.2.1).1 (he ▸ hd)
    have hbefore : clusterSlots buf p.cluster 0 p.index =
        clusterSlots (clusterBuf w p.cluster) p.cluster 0 p.index :=
      clusterSlots_congr fun j _ hj => by rw [← hbuf]; exact slotAt_markSlot_other _ (by omega)
    have hbehind : ∀ n, clusterSlots buf p.cluster (p.index + 1) n =
        clusterSlots (clusterBuf w p.cluster) p.cluster (p.index + 1) n := fun n =>
      clusterSlots_congr fun j hj _ => by rw [← hbuf]; exact slotAt_markSlot_other _ (by omega)
    have hmark : (⟨p.cluster, p.index, slotAt buf p.index⟩ : Placed) = erased p := by
      rw [← hbuf, slotAt_markSlot_same, erased, hslot]
      rfl
    have hcount : entriesPerCluster w - p.index = entriesPerCluster w - (p.index + 1) + 1 := by omega
    rw [hsame, hfront, hbefore, ← hpre, slotsBehind, hsame, hper, hcount, clusterSlots_succ, hmark,
      hbehind, hback, hpost, slotsBehind, List.cons_append]
  · rename_i hm
    obtain ⟨rfl, rfl⟩ := Prod.mk.inj (Option.some.inj hr)
    exact ⟨by simpa using hm, hq⟩

/-- The chain `lc` was freed. -/
structure Released (w : World) (lc : List Nat) (w' : World) : Prop where
  same : SameGeometry w w'
  faults : w'.faults = w.faults
  openFiles : w'.openFiles = w.openFiles
  mallocs : w'.mallocs = w.mallocs
  next : ∀ c, nextOf w' c = if c ∈ lc then 0 else nextOf w c
  bytes : ∀ c, clusterBuf w' c = clusterBuf w c

theorem Released.ready {lc : List Nat} (h : Released w lc w') (hw : Ready w) : Ready w' :=
  hw.of_same h.same h.faults

theorem released_freed (hw : Ready w) (lc : List Nat) : Released w lc (freed w lc) :=
  ⟨sameGeometry_freed, rfl, rfl, rfl, fun _ => freed_next, fun _ => clusterBuf_freed hw.geometry⟩

theorem freeChain_releases (hw : Ready w) {lc : List Nat} (h : DirClusters w s lc) :
    Triple (fun t => t = w) (fat32FreeClusterChain s) fun _ w' => Released w lc w' := by
  rintro t rfl _ w' hr
  rcases h with h | ⟨hs, rfl⟩
  · rw [freeChain_eq hw h] at hr
    obtain ⟨-, rfl⟩ := Prod.mk.inj (Option.some.inj hr)
    exact released_freed hw lc
  · rw [freeChain_unchained hs] at hr
    obtain ⟨-, rfl⟩ := Prod.mk.inj (Option.some.inj hr)
    exact ⟨.refl _, rfl, rfl, rfl, fun _ => rfl, fun _ => rfl⟩

theorem UsedChain.released {lc : List Nat} (h : UsedChain w s l) (hr : Released w lc w')
    (hdis : ∀ c ∈ l, c ∉ lc) : UsedChain w' s l :=
  h.congr hr.same fun c hc => by rw [hr.next, if_neg (hdis c hc)]

/-- What `dropEntry` does to an entry whose chain is `lc`: the chain is freed, and
then the entry is marked unless the heap gives out. -/
theorem dropEntry_drops (hw : Ready w) (h : UsedChain w s l) {p : Placed} {pre post : List Placed}
    (hslots : dirSlots w l = pre ++ p :: post) {x : Lookup} (hs : x.parentDir = s)
    (hc : x.entryCluster = p.cluster) (hi : x.entryIndex = p.index) {lc : List Nat}
    (hlc : DirClusters w x.info.cluster lc) (hdis : ∀ c ∈ l, c ∉ lc) :
    Triple (fun t => t = w) (dropEntry x) fun ok w' => ∃ w₁, Released w lc w₁ ∧
      if ok then Unlisted w₁ l pre p post w' else w.mallocs 0 = false ∧ Quiet w₁ w' := by
  have hmark : ∀ w₁, Released w lc w₁ → Triple (fun t => t = w₁)
      (fat32MarkEntryDeleted x.parentDir x.entryCluster x.entryIndex) fun ok w' =>
        ∃ w₁, Released w lc w₁ ∧
          if ok then Unlisted w₁ l pre p post w' else w.mallocs 0 = false ∧ Quiet w₁ w' := by
    intro w₁ h₁
    have hslots₁ : dirSlots w₁ l = pre ++ p :: post :=
      (dirSlots_congr h₁.same fun c _ => h₁.bytes c).trans hslots
    rw [hs, hc, hi]
    refine (markEntryDeleted_unlists (h₁.ready hw) (UsedChain.released h h₁ hdis) hslots₁).post
      fun ok w' hok => ⟨w₁, h₁, ?_⟩
    rw [h₁.mallocs] at hok
    exact hok
  rw [dropEntry]
  refine .ite (fun _ => ?_) fun hlt => ?_
  · exact .bind (freeChain_releases hw hlc) fun _ => .intro hmark
  · -- no chain
    have hs : isChained x.info.cluster = false := by
      rw [isChained]
      simp only [Bool.and_eq_false_iff, decide_eq_false_iff_not]
      exact .inl (by omega)
    refine .intro fun t ht => hmark t (ht ▸ ?_)
    rcases hlc with hlc | ⟨-, rfl⟩
    · have := (hlc.inRange _ (List.mem_of_head? hlc.head)).isChained hw.geometry
      rw [hs] at this
      cases this
    · exact ⟨.refl _, rfl, rfl, rfl, fun _ => rfl, fun _ => rfl⟩

end

end ContinuumOS.Fat32.Deletion
