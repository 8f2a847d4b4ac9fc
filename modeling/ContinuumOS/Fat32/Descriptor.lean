import Mathlib.Data.Finset.Card
import Mathlib.Order.Interval.Finset.Nat
import ContinuumOS.Lib.Blocks
import ContinuumOS.Fat32.Files
import ContinuumOS.Fat32.Allocation

/-! # Descriptors on a well-formed chain

A descriptor stands at a place of its file in one of three ways: inside a
cluster, at the end of one (after a write), or behind the chain (after reading
or seeking to its end). `Place` covers them, `Content` says what the descriptor
and the clusters of its file hold, and the loops of `fat32_read`, `fat32_write`
and `fat32_seek` are described on it. -/
namespace ContinuumOS.Fat32.Descriptor
open ContinuumOS.Lib.Effect ContinuumOS.Lib.Memory ContinuumOS.Lib.Chains ContinuumOS.Lib.Blocks
open ContinuumOS.Fat32.Volume ContinuumOS.Fat32.Device ContinuumOS.Fat32.Allocation
open ContinuumOS.Fat32.Files

/-- The clusters of a file. -/
structure Chain (w : World) (l : List Nat) : Prop where
  linked : Linked (nextOf w) endCluster l
  nodup : l.Nodup
  inRange : ∀ c ∈ l, InRange w c

/-- Where a descriptor stands. -/
def Place (size : Nat) (l : List Nat) (position current clusterPosition : Nat) : Prop :=
  ∃ q, position = q * size + clusterPosition ∧ clusterPosition ≤ size ∧
    (l[q]? = some current ∨
      q = l.length ∧ clusterPosition = 0 ∧ current = if l = [] then 0 else endCluster)

/-- The descriptor `f` and the clusters `l` of a file that holds `b`. -/
structure Content (w : World) (l : List Nat) (f : File) (b : List UInt8) : Prop where
  chain : Chain w l
  stored : Stored (clusterBuf w) (clusterSize w) l b
  /-- Every cluster holds a byte. -/
  tight : ∀ q, q < l.length → q * clusterSize w < b.length
  start : f.startCluster = l.headD 0
  last : f.lastCluster = l.getLastD 0
  fileSize : f.fileSize = b.length
  fileSize_lt : b.length < 2 ^ 32
  place : Place (clusterSize w) l f.position f.currentCluster f.clusterPosition
  position_le : f.position ≤ b.length

/-- The free clusters. -/
def freeClusters (w : World) : Finset Nat :=
  (Finset.Ico 2 w.fs.totalClusters).filter fun c => nextOf w c = 0

/-- What an operation on a file with clusters `l`, and `l'` afterwards, leaves
as it was. -/
structure Frame (w : World) (l : List Nat) (w' : World) (l' : List Nat) : Prop where
  geometry : SameGeometry w w'
  mallocs : w'.mallocs = w.mallocs
  faults : w'.faults = w.faults
  grown : l <+: l'
  fresh : ∀ c ∈ l', c ∉ l → 2 ≤ c ∧ nextOf w c = 0
  bytes : ∀ c, 2 ≤ c → c ∉ l' → clusterBuf w' c = clusterBuf w c
  next : ∀ c, 2 ≤ c → c ∉ l' → nextOf w' c = nextOf w c
  free : (freeClusters w').card + l'.length = (freeClusters w).card + l.length

section

variable {w w' w'' : World} {l l' l'' : List Nat} {f : File} {b : List UInt8} {c : Nat}

theorem Frame.refl (w : World) (l : List Nat) : Frame w l w l :=
  ⟨.refl w, rfl, rfl, List.prefix_refl l, fun _ h h' => absurd h h', fun _ _ _ => rfl,
    fun _ _ _ => rfl, rfl⟩

theorem Frame.trans (h : Frame w l w' l') (h' : Frame w' l' w'' l'') : Frame w l w'' l'' := by
  have hsub : ∀ c, c ∉ l'' → c ∉ l' := fun c hc hm => hc (h'.grown.subset hm)
  refine ⟨h.geometry.trans h'.geometry, h'.mallocs.trans h.mallocs, h'.faults.trans h.faults,
    h.grown.trans h'.grown, fun c hc hl => ?_, fun c h2 hc => ?_, fun c h2 hc => ?_, ?_⟩
  · by_cases hm : c ∈ l'
    · exact h.fresh c hm hl
    · obtain ⟨h2, hz⟩ := h'.fresh c hc hm
      exact ⟨h2, (h.next c h2 hm).symm.trans hz⟩
  · rw [h'.bytes c h2 hc, h.bytes c h2 (hsub c hc)]
  · rw [h'.next c h2 hc, h.next c h2 (hsub c hc)]
  · have h₁ := h.free
    have h₂ := h'.free
    omega

theorem SameGeometry.clusterSize_eq (h : SameGeometry w w') : clusterSize w' = clusterSize w := by
  obtain ⟨-, h₂, h₃, -⟩ := h.fields
  rw [clusterSize, clusterSize, h₂, h₃]

theorem Frame.calm (hf : Frame w l w' l') (h : Calm w) : Calm w' :=
  h.of_same hf.geometry hf.faults hf.mallocs

theorem Frame.not_mem (h : Frame w l w' l') (hc : c ∉ l) (hn : nextOf w c ≠ 0) : c ∉ l' :=
  fun hm => hn (h.fresh c hm hc).2

/-! ## Chains -/

theorem Chain.next (h : Chain w l) {q : Nat} (hc : l[q]? = some c) :
    nextOf w c = (l[q + 1]?).getD endCluster := h.linked.next hc

theorem Chain.next_ne_zero (h : Chain w l) (hc : c ∈ l) : nextOf w c ≠ 0 := by
  obtain ⟨q, hq⟩ := List.getElem?_of_mem hc
  rw [h.next hq]
  cases hn : l[q + 1]? with
  | none => exact endCluster_ne_zero
  | some d =>
    have := (h.inRange d (List.mem_of_getElem? hn)).1
    exact fun he => by rw [Option.getD_some] at he; omega

theorem Chain.last_mem (hne : l ≠ []) : l.getLastD 0 ∈ l := by
  rw [List.getLastD_eq_getLast?, List.getLast?_eq_some_getLast hne]
  exact List.getLast_mem hne

theorem Chain.head_mem (hne : l ≠ []) : l.headD 0 ∈ l := by
  cases l with
  | nil => exact absurd rfl hne
  | cons a l => simp

theorem headD_concat (hne : l ≠ []) : l.headD 0 = (l ++ [c]).headD 0 := by
  cases l with
  | nil => exact absurd rfl hne
  | cons a l => rfl

theorem mem_freeClusters : c ∈ freeClusters w ↔ InRange w c ∧ nextOf w c = 0 := by
  simp only [freeClusters, Finset.mem_filter, Finset.mem_Ico, InRange]

/-! ## A chain grows -/

/-- A cluster `c` was allocated behind the chain `l`. -/
structure Grown (w : World) (l : List Nat) (c : Nat) (w' : World) : Prop where
  frame : Frame w l w' (l ++ [c])
  chain : Chain w' (l ++ [c])
  openFiles : w'.openFiles = w.openFiles
  zeros : clusterBuf w' c = fun _ => 0
  others : ∀ d ∈ l, clusterBuf w' d = clusterBuf w d

theorem grown_allocated (hr : Ready w) (hl : Chain w l) (hin : InRange w c) (hz : nextOf w c = 0) :
    Grown w l c (allocated w (l.getLastD 0) c) := by
  have hlt := hin.lt hr.geometry
  have hout : c ∉ l := fun hm => hl.next_ne_zero hm hz
  have hpc : l.getLastD 0 ≠ c := by
    by_cases hne : l = []
    · have := hin.1
      subst hne
      simp only [List.getLastD_nil]
      omega
    · exact fun he => hout (he ▸ Chain.last_mem hne)
  have hg : SameGeometry w (allocated w (l.getLastD 0) c) := sameGeometry_allocated
  have hnext : ∀ a, nextOf (allocated w (l.getLastD 0) c) a = if a = c then endCluster else
      if isChained (l.getLastD 0) = true ∧ a = l.getLastD 0 then c else nextOf w a :=
    fun a => allocated_next hlt hpc
  have hkeep : ∀ a, a ≠ c → a ∉ l → nextOf (allocated w (l.getLastD 0) c) a = nextOf w a := by
    intro a hac hal
    rw [hnext, if_neg hac, if_neg]
    rintro ⟨hch, rfl⟩
    by_cases hne : l = []
    · subst hne
      exact absurd hch (by decide)
    · exact hal (Chain.last_mem hne)
  have hchain : Chain (allocated w (l.getLastD 0) c) (l ++ [c]) := by
    refine ⟨?_, ?_, fun a ha => ?_⟩
    · by_cases hne : l = []
      · subst hne
        exact ⟨by rw [hnext, if_pos rfl]; rfl, trivial⟩
      · obtain ⟨m, p, rfl⟩ : ∃ m p, l = m ++ [p] :=
          ⟨l.dropLast, l.getLast hne, (List.dropLast_append_getLast hne).symm⟩
        simp only [List.getLastD_concat] at *
        rw [List.append_assoc]
        have hp : p ∈ m ++ [p] := by simp
        refine hl.linked.concat ?_ (fun h => hout (by simp [h])) ?_ ?_ fun a hap hac => ?_
        · intro hpm
          exact (List.nodup_append.mp hl.nodup).2.2 p hpm p (by simp) rfl
        · rw [hnext, if_neg hpc, if_pos ⟨(hl.inRange p hp).isChained hr.geometry, rfl⟩]
        · rw [hnext, if_pos rfl]
        · rw [hnext, if_neg hac, if_neg fun h => hap h.2]
    · exact List.nodup_append.mpr ⟨hl.nodup, by simp, fun a ha d hd he => hout (by
        rw [← List.mem_singleton.mp hd, ← he]; exact ha)⟩
    · rw [hg.inRange]
      rcases List.mem_append.mp ha with ha | ha
      · exact hl.inRange a ha
      · rw [List.mem_singleton.mp ha]
        exact hin
  have hfree : freeClusters (allocated w (l.getLastD 0) c) = (freeClusters w).erase c := by
    ext a
    rw [Finset.mem_erase, mem_freeClusters, mem_freeClusters, hg.inRange]
    by_cases hac : a = c
    · subst hac
      rw [hnext, if_pos rfl]
      exact ⟨fun h => absurd h.2 endCluster_ne_zero, fun h => absurd rfl h.1⟩
    · by_cases hal : a ∈ l
      · have h₁ := hl.next_ne_zero hal
        have h₂ := hchain.next_ne_zero (List.mem_append_left [c] hal)
        exact ⟨fun h => absurd h.2 h₂, fun h => absurd h.2.2 h₁⟩
      · rw [hkeep a hac hal]
        exact ⟨fun h => ⟨hac, h⟩, fun h => h.2⟩
  refine ⟨⟨hg, allocated_same.2.1, allocated_same.2.2, List.prefix_append _ _, ?_, ?_, ?_, ?_⟩,
    hchain, allocated_same.1, clusterBuf_allocated_same hr.geometry, fun d hd => ?_⟩
  · intro a ha hal
    rcases List.mem_append.mp ha with ha | ha
    · exact absurd ha hal
    · rw [List.mem_singleton.mp ha]
      exact ⟨hin.1, hz⟩
  · intro a h2 ha
    exact clusterBuf_allocated_other hr.geometry hin.1 h2 fun he => ha (by simp [he])
  · intro a _ ha
    exact hkeep a (fun he => ha (by simp [he])) fun hm => ha (by simp [hm])
  · have hmem : c ∈ freeClusters w := mem_freeClusters.mpr ⟨hin, hz⟩
    have hpos := Finset.card_pos.mpr ⟨c, hmem⟩
    rw [hfree, Finset.card_erase_of_mem hmem, List.length_append, List.length_singleton]
    omega
  · exact clusterBuf_allocated_other hr.geometry hin.1 (hl.inRange d hd).1 fun he => hout (he ▸ hd)

/-- **An allocation behind the last cluster extends the chain.** -/
theorem allocate_grows (hw : Calm w) (hl : Chain w l) (hfree : 0 < (freeClusters w).card) :
    ∃ c w', fat32AllocateCluster (l.getLastD 0) w = some (c, w') ∧ Grown w l c w' ∧ 2 ≤ c := by
  obtain ⟨d, hd⟩ := Finset.card_pos.mp hfree
  obtain ⟨hin, hz⟩ := mem_freeClusters.mp hd
  rw [allocateCluster_eq hw.geometry hw.noFaults hw.flushable, if_pos (hw.mallocs 0),
    hw.mallocs.spend]
  cases hfind : findFree w with
  | none => exact absurd hz (findFree_none.mp hfind d hin)
  | some c =>
    obtain ⟨hin', hz'⟩ := findFree_some hfind
    exact ⟨c, _, rfl, grown_allocated hw.toReady hl hin' hz', hin'.1⟩

/-! ## Reading -/

theorem clusterSize_lt (g : Geometry w) : clusterSize w < 2 ^ 17 := by
  have h := g.sectorsPerCluster_le
  rw [g.clusterSize_eq, sectorSize]
  omega

/-- Only the place changed. -/
def Moved (f f' : File) : Prop :=
  f' = { f with
    currentCluster := f'.currentCluster
    position := f'.position
    clusterPosition := f'.clusterPosition }

theorem Moved.trans {f f' f'' : File} (h : Moved f f') (h' : Moved f' f'') : Moved f f'' := by
  rw [Moved] at *
  rw [h', h]

theorem Content.moved {f' : File} (h : Content w l f b) (hm : Moved f f')
    (hp : Place (clusterSize w) l f'.position f'.currentCluster f'.clusterPosition)
    (hle : f'.position ≤ b.length) : Content w l f' b := by
  refine ⟨h.chain, h.stored, h.tight, ?_, ?_, ?_, h.fileSize_lt, hp, hle⟩
  · rw [hm]; exact h.start
  · rw [hm]; exact h.last
  · rw [hm]; exact h.fileSize

theorem Content.inside (h : Content w l f b) (hlt : f.position < b.length) :
    ∃ q, f.position = q * clusterSize w + f.clusterPosition ∧ f.clusterPosition ≤ clusterSize w ∧
      l[q]? = some f.currentCluster := by
  obtain ⟨q, hpos, hle, hin | ⟨rfl, hz, -⟩⟩ := h.place
  · exact ⟨q, hpos, hle, hin⟩
  · have := h.stored.length_le
    omega

theorem place_next (hl : Chain w l) {size q : Nat} (hc : l[q]? = some c) :
    Place size l (q * size + size) (nextOf w c) 0 := by
  have hlt := (List.getElem?_eq_some_iff.mp hc).1
  refine ⟨q + 1, by rw [Nat.succ_mul, Nat.add_zero], Nat.zero_le _, ?_⟩
  rw [hl.next hc]
  cases hn : l[q + 1]? with
  | some d => exact .inl rfl
  | none =>
    have hge := List.getElem?_eq_none_iff.mp hn
    have hne : l ≠ [] := by rintro rfl; cases hc
    exact .inr ⟨by omega, rfl, by rw [if_neg hne]; rfl⟩

/-- The place behind `k` more bytes of the same cluster. -/
def stepped (w : World) (f : File) (k : Nat) : File :=
  let f := { f with
    position := (f.position + k) % 2 ^ 32
    clusterPosition := (f.clusterPosition + k) % 2 ^ 32 }
  if f.clusterPosition ≥ clusterSize w then
    { f with currentCluster := fat32GetNextCluster w f.currentCluster, clusterPosition := 0 }
  else f

theorem stepped_spec (hw : Calm w) (h : Content w l f b) {q k : Nat}
    (hpos : f.position = q * clusterSize w + f.clusterPosition) (hc : l[q]? = some f.currentCluster)
    (hk : f.clusterPosition + k ≤ clusterSize w) (hle : f.position + k ≤ b.length) :
    Content w l (stepped w f k) b ∧ Moved f (stepped w f k) ∧
      (stepped w f k).position = f.position + k ∧
      (stepped w f k).clusterPosition < clusterSize w := by
  have hcs := clusterSize_lt hw.geometry
  have hcp := hw.geometry.clusterSize_pos
  have hsz := h.fileSize_lt
  have hp : (f.position + k) % 2 ^ 32 = f.position + k := Nat.mod_eq_of_lt (by omega)
  have hcl : (f.clusterPosition + k) % 2 ^ 32 = f.clusterPosition + k := Nat.mod_eq_of_lt (by omega)
  have hin := h.chain.inRange _ (List.mem_of_getElem? hc)
  have hnext := getNextCluster_eq hw.geometry hin
  by_cases hge : f.clusterPosition + k ≥ clusterSize w
  · have hplace := @place_next _ _ _ h.chain (clusterSize w) _ hc
    rw [show q * clusterSize w + clusterSize w = f.position + k by omega] at hplace
    have heq : stepped w f k = { f with
        currentCluster := nextOf w f.currentCluster
        position := f.position + k
        clusterPosition := 0 } := by
      simp only [stepped, hp, hcl, hnext, if_pos hge]
    rw [heq]
    exact ⟨h.moved rfl hplace hle, rfl, rfl, hcp⟩
  · have heq : stepped w f k = { f with
        position := f.position + k
        clusterPosition := f.clusterPosition + k } := by
      simp only [stepped, hp, hcl, if_neg hge]
    rw [heq]
    have hpos' : f.position + k = q * clusterSize w + (f.clusterPosition + k) := by omega
    exact ⟨h.moved rfl ⟨q, hpos', hk, .inl hc⟩ hle, rfl, rfl, Nat.not_le.mp hge⟩

/-- **The loop of `fat32_read`.** -/
theorem readLoop_spec (hw : Calm w) (size : Nat) : ∀ (rounds : Nat) (f : File) (acc : List UInt8),
    Content w l f b → acc.length ≤ size → f.position + (size - acc.length) ≤ b.length →
    size - acc.length + (if f.clusterPosition = clusterSize w then 2 else 1) ≤ rounds →
    ∃ f', readLoop size rounds f acc w =
        some ((some (acc ++ (b.drop f.position).take (size - acc.length)), f'), w) ∧
      Content w l f' b ∧ Moved f f' ∧ f'.position = f.position + (size - acc.length)
  | 0, f, acc, _, _, _, hr => by split at hr <;> omega
  | rounds + 1, f, acc, h, hacc, hle, hr => by
    rw [readLoop]
    by_cases hm : acc.length < size
    · obtain ⟨q, hpos, hcl, hc⟩ := h.inside (by omega)
      have hin := h.chain.inRange _ (List.mem_of_getElem? hc)
      have hend : f.currentCluster < endCluster :=
        (isChained_iff.mp (hin.isChained hw.geometry)).2
      have hcs := clusterSize_lt hw.geometry
      have hbytes : (clusterSize w + 2 ^ 32 - f.clusterPosition) % 2 ^ 32 =
          clusterSize w - f.clusterPosition := by omega
      generalize hk : min (size - acc.length) (clusterSize w - f.clusterPosition) = k
      have hread := h.stored.read hc (r := f.clusterPosition) (k := k) (by omega) (by omega)
      rw [← hpos] at hread
      obtain ⟨h', hmoved, hpos', hcl'⟩ := stepped_spec hw h hpos hc (k := k) (by omega) (by omega)
      have hacc' : (acc ++ (b.drop f.position).take k).length = acc.length + k := by
        rw [List.length_append, List.length_take, List.length_drop]
        omega
      obtain ⟨f', hrun, hcont, hmv, hp⟩ := readLoop_spec hw size rounds (stepped w f k)
        (acc ++ (b.drop f.position).take k) h' (by omega) (by omega) (by
          rw [if_neg (by omega)]
          split at hr <;> omega)
      refine ⟨f', ?_, hcont, hmoved.trans hmv, by omega⟩
      simp only [hm, hend, and_self, if_true, bind_run, readCluster_eq hw.geometry hw.noFaults hin,
        Option.bind_some, get_run, hbytes, hk, hread, ite_run]
      rw [hpos', hacc', List.append_assoc] at hrun
      have hjoin : (b.drop f.position).take k ++
          (b.drop (f.position + k)).take (size - (acc.length + k)) =
          (b.drop f.position).take (size - acc.length) := by
        rw [← List.drop_drop, ← List.take_add]
        congr 1
        omega
      rw [hjoin] at hrun
      exact hrun
    · have hz : size - acc.length = 0 := by omega
      refine ⟨f, ?_, h, rfl, by omega⟩
      simp [hm, hz]

/-! ## Seeking -/

theorem place_start (size : Nat) (l : List Nat) : Place size l 0 (l.headD 0) 0 := by
  refine ⟨0, by omega, Nat.zero_le _, ?_⟩
  cases l with
  | nil => exact .inr ⟨rfl, rfl, rfl⟩
  | cons a l => exact .inl rfl

/-- **The loop of `fat32_seek`.** -/
theorem seekLoop_spec (hw : Calm w) (hl : Chain w l) {len : Nat}
    (hlen : len ≤ l.length * clusterSize w) : ∀ (rounds : Nat) (f : File) (position : Nat),
    Place (clusterSize w) l f.position f.currentCluster 0 → f.position + position ≤ len →
    position < rounds →
    ∃ f' p, seekLoop w rounds f position = some (f', p) ∧ Moved f f' ∧
      f'.position + p = f.position + position ∧
      Place (clusterSize w) l (f'.position + p) f'.currentCluster p
  | 0, _, _, _, _, hr => absurd hr (Nat.not_lt_zero _)
  | rounds + 1, f, position, hp, hle, hr => by
    have hcp := hw.geometry.clusterSize_pos
    obtain ⟨q, hpos, -, hq⟩ := hp
    rw [seekLoop]
    by_cases hge : position ≥ clusterSize w
    · -- a whole cluster is skipped
      have hc : l[q]? = some f.currentCluster := by
        rcases hq with hq | ⟨rfl, -, -⟩
        · exact hq
        · omega
      have hin := hl.inRange _ (List.mem_of_getElem? hc)
      have hend : f.currentCluster < endCluster :=
        (isChained_iff.mp (hin.isChained hw.geometry)).2
      have hplace := @place_next _ _ _ hl (clusterSize w) _ hc
      rw [if_pos ⟨hge, hend⟩, getNextCluster_eq hw.geometry hin]
      obtain ⟨f', p, hrun, hmv, hsum, hplace'⟩ := seekLoop_spec hw hl hlen rounds
        { f with
          currentCluster := nextOf w f.currentCluster
          position := f.position + clusterSize w } (position - clusterSize w)
        (by rw [show f.position + clusterSize w = q * clusterSize w + clusterSize w by omega]
            exact hplace)
        (by change f.position + clusterSize w + _ ≤ len; omega) (by omega)
      refine ⟨f', p, hrun, ?_, ?_, hplace'⟩
      · have hstep : Moved f { f with
            currentCluster := nextOf w f.currentCluster
            position := f.position + clusterSize w } := rfl
        exact hstep.trans hmv
      · rw [hsum]
        change f.position + clusterSize w + _ = _
        omega
    · rw [if_neg fun h => hge h.1]
      refine ⟨f, position, rfl, rfl, rfl, q, by omega, by omega, ?_⟩
      rcases hq with hq | ⟨rfl, -, hcur⟩
      · exact .inl hq
      · exact .inr ⟨rfl, by omega, hcur⟩

/-! ## Writing -/

/-- The directory fields of a descriptor. -/
def SameEntry (f f' : File) : Prop :=
  f'.dirCluster = f.dirCluster ∧ f'.dirEntryCluster = f.dirEntryCluster ∧
    f'.dirEntryIndex = f.dirEntryIndex ∧ f'.inUse = f.inUse

theorem SameEntry.trans {f f' f'' : File} (h : SameEntry f f') (h' : SameEntry f' f'') :
    SameEntry f f'' :=
  ⟨h'.1.trans h.1, h'.2.1.trans h.2.1, h'.2.2.1.trans h.2.2.1, h'.2.2.2.trans h.2.2.2⟩

theorem Moved.sameEntry {f f' : File} (h : Moved f f') : SameEntry f f' := by
  rw [h]
  exact ⟨rfl, rfl, rfl, rfl⟩

/-- A descriptor inside a cluster, the last of which may still be empty. -/
structure Writable (w : World) (l : List Nat) (f : File) (b : List UInt8) (q : Nat) : Prop where
  chain : Chain w l
  stored : Stored (clusterBuf w) (clusterSize w) l b
  tight : ∀ j, j < l.length → j * clusterSize w < b.length ∨ j * clusterSize w = f.position
  start : f.startCluster = l.headD 0
  last : f.lastCluster = l.getLastD 0
  fileSize : f.fileSize = b.length
  fileSize_lt : b.length < 2 ^ 32
  position_le : f.position ≤ b.length
  inside : l[q]? = some f.currentCluster
  room : f.clusterPosition < clusterSize w
  position : f.position = q * clusterSize w + f.clusterPosition

theorem Content.writable (h : Content w l f b) {q : Nat} (hc : l[q]? = some f.currentCluster)
    (hr : f.clusterPosition < clusterSize w)
    (hp : f.position = q * clusterSize w + f.clusterPosition) : Writable w l f b q :=
  ⟨h.chain, h.stored, fun j hj => .inl (h.tight j hj), h.start, h.last, h.fileSize, h.fileSize_lt,
    h.position_le, hc, hr, hp⟩

theorem Content.writable_grown {f' : File} (hw : Calm w) (h : Content w l f b)
    (hg : Grown w l c w') (hpos : f.position = l.length * clusterSize w)
    (hstart : f'.startCluster = (l ++ [c]).headD 0) (hlast : f'.lastCluster = c)
    (hcur : f'.currentCluster = c) (hcl : f'.clusterPosition = 0)
    (hp : f'.position = f.position) (hs : f'.fileSize = f.fileSize) :
    Writable w' (l ++ [c]) f' b l.length := by
  have hcs := SameGeometry.clusterSize_eq hg.frame.geometry
  have hcp := hw.geometry.clusterSize_pos
  refine ⟨hg.chain, ?_, fun j hj => ?_, hstart, ?_, hs.trans h.fileSize, h.fileSize_lt,
    hp ▸ h.position_le, ?_, ?_, ?_⟩
  · rw [hcs]
    exact (h.stored.congr hcp fun d hd i _ => by rw [hg.others d hd]).extend c
  · rw [hcs, hp, hpos]
    rw [List.length_append, List.length_singleton] at hj
    by_cases hj' : j < l.length
    · exact .inl (h.tight j hj')
    · exact .inr (by rw [show j = l.length by omega])
  · rw [hlast, List.getLastD_concat]
  · rw [hcur, List.getElem?_append_right (Nat.le_refl _), Nat.sub_self]
    rfl
  · rw [hcl, hcs]
    exact hcp
  · rw [hcl, hcs, hp, hpos, Nat.add_zero]

/-- `clusterToWrite` makes `f'` of the descriptor, to write to cluster `q` of its file. -/
structure Found (w : World) (l : List Nat) (f : File) (b : List UInt8) (w' : World) (l' : List Nat)
    (f' : File) (q : Nat) : Prop where
  run : clusterToWrite f w = some ((f', true), w')
  frame : Frame w l w' l'
  openFiles : w'.openFiles = w.openFiles
  writable : Writable w' l' f' b q
  position : f'.position = f.position
  entry : SameEntry f f'

theorem Content.start_ge (h : Content w l f b) (hne : l ≠ []) : ¬ f.startCluster < 2 := by
  rw [h.start]
  have := (h.chain.inRange _ (Chain.head_mem hne)).1
  omega

section

variable {q : Nat} (hw : Calm w) (h : Content w l f b) (hq : l[q]? = some f.currentCluster)

include hw h

include hq in
/-- Inside the chain the start and the current cluster are there. -/
theorem clusterToWrite_inside : clusterToWrite f w = nextCluster f w := by
  have hmem := List.mem_of_getElem? hq
  have hstart := h.start_ge (List.ne_nil_of_mem hmem)
  have hch := (h.chain.inRange _ hmem).isChained hw.geometry
  simp only [clusterToWrite, firstCluster, clusterAtEnd, ite_run, if_neg hstart, hch, bind_run,
    pure_run, Option.bind_some, not_true_eq_false, if_false]

include hq in
theorem found_room (hroom : f.clusterPosition < clusterSize w)
    (hpos : f.position = q * clusterSize w + f.clusterPosition) : Found w l f b w l f q := by
  refine ⟨?_, .refl w l, rfl, h.writable hq hroom hpos, rfl, rfl, rfl, rfl, rfl⟩
  rw [clusterToWrite_inside hw h hq, nextCluster]
  simp only [bind_run, get_run, Option.bind_some, ite_run, ge_iff_le,
    if_neg (Nat.not_le.mpr hroom), pure_run]

include hq in
/-- The cluster is full: the successor is looked up. -/
theorem clusterToWrite_onward (hfull : f.clusterPosition = clusterSize w) :
    clusterToWrite f w = (do
      let next := (l[q + 1]?).getD endCluster
      if isChained next then
        return ({ f with
          currentCluster := next
          clusterPosition := 0 }, true)
      let newCluster ← fat32AllocateCluster f.currentCluster
      if newCluster = 0 then return (f, false)
      return ({ f with
        lastCluster := newCluster
        currentCluster := newCluster
        clusterPosition := 0 }, true) : Fat (File × Bool)) w := by
  have hnext := h.chain.next hq
  rw [nextOf] at hnext
  rw [clusterToWrite_inside hw h hq, nextCluster]
  simp only [bind_run, get_run, Option.bind_some, ite_run, ge_iff_le, hfull, Nat.le_refl,
    if_true, hnext]

include hq in
theorem found_next {d : Nat} (hfull : f.clusterPosition = clusterSize w)
    (hpos : f.position = q * clusterSize w + f.clusterPosition) (hn : l[q + 1]? = some d) :
    Found w l f b w l { f with currentCluster := d, clusterPosition := 0 } (q + 1) := by
  have hd := (h.chain.inRange d (List.mem_of_getElem? hn)).isChained hw.geometry
  have hnew : f.position = (q + 1) * clusterSize w + 0 := by
    rw [Nat.succ_mul]
    omega
  refine ⟨?_, .refl w l, rfl, ?_, rfl, rfl, rfl, rfl, rfl⟩
  · rw [clusterToWrite_onward hw h hq hfull, hn]
    simp only [Option.getD_some, hd, if_true, pure_run]
  · exact ⟨h.chain, h.stored, fun j hj => .inl (h.tight j hj), h.start, h.last, h.fileSize,
      h.fileSize_lt, h.position_le, hn, hw.geometry.clusterSize_pos, hnew⟩

include hq in
/-- The full cluster is the last one: the chain grows. -/
theorem found_last (hfull : f.clusterPosition = clusterSize w)
    (hpos : f.position = q * clusterSize w + f.clusterPosition) (hn : l[q + 1]? = none)
    (hfree : f.position = l.length * clusterSize w → 0 < (freeClusters w).card) :
    ∃ w' l' f' q, Found w l f b w' l' f' q := by
  have hlen := List.getElem?_eq_none_iff.mp hn
  have hlt := (List.getElem?_eq_some_iff.mp hq).1
  have hql : l.length = q + 1 := by omega
  have hpl : f.position = l.length * clusterSize w := by
    rw [hql, Nat.succ_mul]
    omega
  have hlast : l.getLastD 0 = f.currentCluster := by
    rw [List.getLastD_eq_getLast?, List.getLast?_eq_getElem?, hql, Nat.add_sub_cancel, hq]
    rfl
  obtain ⟨c, w', halloc, hg, hc2⟩ := allocate_grows hw h.chain (hfree hpl)
  rw [hlast] at halloc
  refine ⟨w', l ++ [c], { f with
    lastCluster := c
    currentCluster := c
    clusterPosition := 0 }, l.length, ?_, hg.frame, hg.openFiles, ?_, rfl, rfl, rfl, rfl, rfl⟩
  · rw [clusterToWrite_onward hw h hq hfull, hn]
    simp only [Option.getD_none, ite_run, bind_run, not_isChained_endCluster, Bool.false_eq_true,
      if_false, halloc, Option.bind_some, pure_run, if_neg (show ¬ c = 0 by omega)]
  · refine h.writable_grown hw hg hpl ?_ rfl rfl rfl rfl rfl
    exact h.start.trans (headD_concat (List.ne_nil_of_mem (List.mem_of_getElem? hq)))

theorem found_first (hl : l = []) (hpl : f.position = l.length * clusterSize w)
    (hfree : 0 < (freeClusters w).card) : ∃ w' l' f' q, Found w l f b w' l' f' q := by
  obtain ⟨c, w', halloc, hg, hc2⟩ := allocate_grows hw h.chain hfree
  have hcch := (hg.chain.inRange c (by simp)).isChained (hg.frame.geometry.geometry hw.geometry)
  have hroom : ¬ clusterSize w' ≤ 0 := by
    rw [SameGeometry.clusterSize_eq hg.frame.geometry]
    have := hw.geometry.clusterSize_pos
    omega
  subst hl
  have hs : f.startCluster = 0 := h.start
  refine ⟨w', [] ++ [c], { f with
    startCluster := c
    currentCluster := c
    lastCluster := c
    clusterPosition := 0 }, 0, ?_, hg.frame, hg.openFiles,
    h.writable_grown hw hg hpl rfl rfl rfl rfl rfl rfl, rfl, rfl, rfl, rfl, rfl⟩
  rw [List.getLastD_nil] at halloc
  simp only [clusterToWrite, firstCluster, clusterAtEnd, nextCluster, ite_run, hs,
    show (0 : Nat) < 2 by decide, if_true, bind_run, halloc, Option.bind_some, pure_run,
    if_neg (show ¬ c = 0 by omega), not_true_eq_false, if_false, hcch, get_run, ge_iff_le,
    hroom]

theorem found_behind (hne : l ≠ []) (hpl : f.position = l.length * clusterSize w)
    (hcur : f.currentCluster = endCluster) (hfree : 0 < (freeClusters w).card) :
    ∃ w' l' f' q, Found w l f b w' l' f' q := by
  obtain ⟨c, w', halloc, hg, hc2⟩ := allocate_grows hw h.chain hfree
  have hroom : ¬ clusterSize w' ≤ 0 := by
    rw [SameGeometry.clusterSize_eq hg.frame.geometry]
    have := hw.geometry.clusterSize_pos
    omega
  have hlin := h.chain.inRange _ (Chain.last_mem hne)
  have hlast2 : f.lastCluster ≥ 2 := h.last ▸ hlin.1
  have hlch : isChained f.lastCluster = true := h.last ▸ hlin.isChained hw.geometry
  rw [← h.last] at halloc
  refine ⟨w', l ++ [c], { f with
    currentCluster := c
    lastCluster := c
    clusterPosition := 0 }, l.length, ?_, hg.frame, hg.openFiles, ?_, rfl, rfl, rfl, rfl, rfl⟩
  · simp only [clusterToWrite, firstCluster, clusterAtEnd, nextCluster, ite_run,
      if_neg (h.start_ge hne), hcur, not_isChained_endCluster, Bool.false_eq_true,
      not_false_eq_true, if_true, if_pos hlast2, hlch, bind_run, halloc, Option.bind_some, pure_run,
      if_neg (show ¬ c = 0 by omega), not_true_eq_false, if_false, get_run, ge_iff_le, hroom]
  · refine h.writable_grown hw hg hpl ?_ rfl rfl rfl rfl rfl
    exact h.start.trans (headD_concat hne)

/-- **A cluster to write to is found or allocated.** -/
theorem clusterToWrite_spec
    (hfree : f.position = l.length * clusterSize w → 0 < (freeClusters w).card) :
    ∃ w' l' f' q, Found w l f b w' l' f' q := by
  obtain ⟨q, hpos, hle, hq | ⟨rfl, hz, hcur⟩⟩ := h.place
  · by_cases hroom : f.clusterPosition < clusterSize w
    · exact ⟨w, l, f, q, found_room hw h hq hroom hpos⟩
    · have hfull : f.clusterPosition = clusterSize w := by omega
      cases hn : l[q + 1]? with
      | some d => exact ⟨w, l, _, q + 1, found_next hw h hq hfull hpos hn⟩
      | none => exact found_last hw h hq hfull hpos hn hfree
  · have hpl : f.position = l.length * clusterSize w := by omega
    by_cases hne : l = []
    · exact found_first hw h hne hpl (hfree hpl)
    · exact found_behind hw h hne hpl (by rw [hcur, if_neg hne]) (hfree hpl)

end

theorem frame_putCluster {buf : Buf} (hl : Chain w l) (hc : c ∈ l) :
    Frame w l (putCluster w c buf) l :=
  ⟨sameGeometry_putCluster, rfl, rfl, List.prefix_refl l, fun _ h h' => absurd h h',
    fun _ h2 hd => clusterBuf_putCluster_other (hl.inRange c hc).1 h2 fun he => hd (he ▸ hc),
    fun _ _ _ => rfl, rfl⟩

theorem Writable.content {q n : Nat} {buf : Buf} {s : List UInt8} (hw : Calm w)
    (h : Writable w l f b q) (hn : s.length = n) (hpos : 0 < n)
    (hle : f.clusterPosition + n ≤ clusterSize w) (hlt : f.position + n < 2 ^ 32)
    (hin : ∀ i, i < n → s[i]? = some (buf (f.clusterPosition + i)))
    (hout : ∀ i, i < clusterSize w → i < f.clusterPosition ∨ f.clusterPosition + n ≤ i →
      buf i = clusterBuf w f.currentCluster i) :
    Content (putCluster w f.currentCluster buf) l (advanced f n) (overwrite b f.position s) := by
  have hcs : clusterSize (putCluster w f.currentCluster buf) = clusterSize w :=
    SameGeometry.clusterSize_eq sameGeometry_putCluster
  have hmem := List.mem_of_getElem? h.inside
  have hlen := length_overwrite (s := s) h.position_le
  have hsize : clusterSize w = w.fs.sectorsPerCluster * sectorSize := hw.geometry.clusterSize_eq
  have hnew : (f.position + n) % 2 ^ 32 = f.position + n := Nat.mod_eq_of_lt hlt
  have hfs : (advanced f n).fileSize = (overwrite b f.position s).length := by
    simp only [advanced, hnew, h.fileSize, hlen, hn]
    split <;> omega
  have hstored : Stored (clusterBuf (putCluster w f.currentCluster buf)) (clusterSize w) l
      (overwrite b f.position s) := by
    rw [h.position]
    refine h.stored.write h.chain.nodup h.inside (by omega) (by rw [← h.position]; exact h.position_le)
      (fun i hi => ?_) (fun i hi hr => ?_) (fun d hd hne i _ => ?_)
    · rw [clusterBuf_putCluster_same (by omega)]
      exact hin i (by omega)
    · rw [clusterBuf_putCluster_same (by omega)]
      exact hout i hi (by omega)
    · rw [clusterBuf_putCluster_other (h.chain.inRange _ hmem).1 (h.chain.inRange d hd).1 hne]
  refine ⟨⟨h.chain.linked, h.chain.nodup, h.chain.inRange⟩, hcs ▸ hstored, fun j hj => ?_, h.start,
    h.last, hfs, ?_, ?_, ?_⟩
  · rw [hcs, hlen]
    rcases h.tight j hj with ht | ht <;> omega
  · have := h.fileSize_lt
    omega
  · refine ⟨q, ?_, by rw [hcs]; exact hle, .inl h.inside⟩
    rw [hcs]
    change (f.position + n) % 2 ^ 32 = q * clusterSize w + (f.clusterPosition + n)
    have := h.position
    omega
  · change (f.position + n) % 2 ^ 32 ≤ _
    omega

/-- **One round of the write loop.** The file is what it should be as long as the
position fits into 32 bits. -/
theorem writeChunk_writes {q : Nat} (hw : Calm w) (h : Writable w l f b q) {src : List UInt8}
    (hsrc : src ≠ []) :
    ∃ n w', writeChunk f src w = some (some n, w') ∧ 0 < n ∧ n ≤ src.length ∧
      f.position + n ≤ l.length * clusterSize w ∧ Frame w l w' l ∧
      w'.openFiles = w.openFiles ∧ (f.position + n < 2 ^ 32 →
        Content w' l (advanced f n) (overwrite b f.position (src.take n))) := by
  have hmem := List.mem_of_getElem? h.inside
  have hin := h.chain.inRange _ hmem
  have hsl := List.length_pos_iff.mpr hsrc
  have hroom := h.room
  generalize hn : min src.length (clusterSize w - f.clusterPosition) = n
  -- what the cluster holds where nothing is written
  obtain ⟨old, hrun, hkeep⟩ : ∃ old : Buf, writeChunk f src w = some (some n, putCluster w
        f.currentCluster (store old f.clusterPosition n fun i => src.getD i 0)) ∧
      ∀ i, i < clusterSize w → i < f.clusterPosition ∨ f.clusterPosition + n ≤ i →
        old i = clusterBuf w f.currentCluster i := by
    by_cases hread : f.clusterPosition ≠ 0 ∨ n < clusterSize w
    · refine ⟨clusterBuf w f.currentCluster, ?_, fun _ _ _ => rfl⟩
      simp only [writeChunk, bind_run, get_run, Option.bind_some, hn, ite_run, if_pos hread,
        readCluster_eq hw.geometry hw.noFaults hin, writeCluster_eq hw.geometry hw.noFaults hin,
        if_true, pure_run]
    · refine ⟨fun _ => 0, ?_, fun i hi hr => by omega⟩
      simp only [writeChunk, bind_run, get_run, Option.bind_some, hn, ite_run, if_neg hread,
        writeCluster_eq hw.geometry hw.noFaults hin, if_true, pure_run]
  have hend : f.position + n ≤ l.length * clusterSize w := by
    have hq : q + 1 ≤ l.length := (List.getElem?_eq_some_iff.mp h.inside).1
    have hmul := Nat.mul_le_mul_right (clusterSize w) hq
    rw [Nat.succ_mul] at hmul
    rw [h.position]
    omega
  refine ⟨n, _, hrun, by omega, by omega, hend, frame_putCluster h.chain hmem, rfl, fun hlt => ?_⟩
  refine h.content hw (by rw [List.length_take]; omega) (by omega) (by omega) hlt
    (fun i hi => ?_) fun i hi hr => ?_
  · rw [store_inside (by omega) (by omega), Nat.add_sub_cancel_left, List.getElem?_take_of_lt hi,
      List.getD_eq_getElem?_getD, List.getElem?_eq_getElem (by omega), Option.getD_some]
  · rw [store_outside (by omega)]
    exact hkeep i hi hr

theorem writeChunk_spec {q : Nat} (hw : Calm w) (h : Writable w l f b q) {src : List UInt8}
    (hsrc : src ≠ []) (hlt : f.position + src.length < 2 ^ 32) :
    ∃ n w', writeChunk f src w = some (some n, w') ∧ 0 < n ∧ n ≤ src.length ∧ Frame w l w' l ∧
      w'.openFiles = w.openFiles ∧ Content w' l (advanced f n) (overwrite b f.position (src.take n)) := by
  obtain ⟨n, w', hrun, hpos, hle, -, hf, ho, hc⟩ := writeChunk_writes hw h hsrc
  exact ⟨n, w', hrun, hpos, hle, hf, ho, hc (by omega)⟩

/-- **The loop of `fat32_write`.** -/
theorem writeLoop_spec : ∀ (rounds : Nat) (w : World) (l : List Nat) (f : File) (b src : List UInt8)
    (written : Nat), Calm w → Content w l f b → f.position + src.length < 2 ^ 32 →
    (∀ q, q * clusterSize w < f.position + src.length → q < l.length + (freeClusters w).card) →
    src.length ≤ rounds →
    ∃ w' l' f', writeLoop rounds f src written w = some ((f', written + src.length, true), w') ∧
      Frame w l w' l' ∧ w'.openFiles = w.openFiles ∧ SameEntry f f' ∧
      f'.position = f.position + src.length ∧ Content w' l' f' (overwrite b f.position src) := by
  intro rounds
  induction rounds with
  | zero =>
    intro w l f b src written _ h _ _ hr
    have hsrc : src = [] := List.length_eq_zero_iff.mp (by omega)
    subst hsrc
    refine ⟨w, l, f, rfl, .refl w l, rfl, ⟨rfl, rfl, rfl, rfl⟩, rfl, ?_⟩
    rw [overwrite_nil]
    exact h
  | succ rounds ih =>
    intro w l f b src written hw h hlt hfree hr
    by_cases hsrc : src = []
    · subst hsrc
      refine ⟨w, l, f, ?_, .refl w l, rfl, ⟨rfl, rfl, rfl, rfl⟩, rfl, ?_⟩
      · simp [writeLoop]
      · rw [overwrite_nil]
        exact h
    · have hsl := List.length_pos_iff.mpr hsrc
      obtain ⟨w₁, l₁, f₁, q, hrun₁, hf₁, ho₁, hwr, hp₁, he₁⟩ := clusterToWrite_spec hw h fun hp => by
        have := hfree l.length (by omega)
        omega
      have hw₁ := hf₁.calm hw
      have hcs₁ := SameGeometry.clusterSize_eq hf₁.geometry
      obtain ⟨n, w₂, hrun₂, hn, hns, hf₂, ho₂, hc₂⟩ := writeChunk_spec hw₁ hwr hsrc (by omega)
      have hw₂ := hf₂.calm hw₁
      have hcs₂ := SameGeometry.clusterSize_eq hf₂.geometry
      have hp₂ : (advanced f₁ n).position = f.position + n := by
        change (f₁.position + n) % 2 ^ 32 = _
        rw [hp₁]
        exact Nat.mod_eq_of_lt (by omega)
      obtain ⟨w₃, l₃, f₃, hrun₃, hf₃, ho₃, he₃, hp₃, hc₃⟩ := ih w₂ l₁ (advanced f₁ n) _ (src.drop n)
        (written + n) hw₂ hc₂ (by rw [hp₂, List.length_drop]; omega)
        (fun j hj => by
          rw [hcs₂, hcs₁, hp₂, List.length_drop] at hj
          have h₁ := hfree j (by omega)
          have h₂ := hf₁.free
          have h₃ := hf₂.free
          omega)
        (by rw [List.length_drop]; omega)
      have hadv : SameEntry f₁ (advanced f₁ n) := ⟨rfl, rfl, rfl, rfl⟩
      refine ⟨w₃, l₃, f₃, ?_, (hf₁.trans hf₂).trans hf₃, ho₃.trans (ho₂.trans ho₁),
        he₁.trans (hadv.trans he₃), ?_, ?_⟩
      · rw [List.length_drop] at hrun₃
        simp only [writeLoop, hsrc, if_false, bind_run, hrun₁, Option.bind_some, not_true_eq_false,
          ite_run, hrun₂, hrun₃]
        rw [show written + n + (src.length - n) = written + src.length by omega]
      · rw [hp₂, List.length_drop] at hp₃
        omega
      · rw [hp₂, hp₁] at hc₃
        have hjoin := overwrite_overwrite (s := src.take n) (t := src.drop n) h.position_le
        rw [List.length_take, Nat.min_eq_left hns, List.take_append_drop] at hjoin
        rw [hjoin] at hc₃
        exact hc₃

end

end ContinuumOS.Fat32.Descriptor
