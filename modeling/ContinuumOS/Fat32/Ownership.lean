import ContinuumOS.Fat32.Deletion

/-! # Which entry a cluster belongs to

A well-formed volume: the chains of the root directory and of the entries are
made of clusters in use, no cluster lies on two of them, no two entries share a
chain, and in every directory the dot entries come first and the free slots that
end it come last. Growing a directory, writing an entry, making a directory and
giving up an entry with its chain keep this. -/
namespace ContinuumOS.Fat32.Ownership
open ContinuumOS.Fat32.Volume ContinuumOS.Fat32.Device ContinuumOS.Fat32.Allocation
open ContinuumOS.Fat32.Names ContinuumOS.Fat32.Directory ContinuumOS.Fat32.Scan
open ContinuumOS.Fat32.Search ContinuumOS.Fat32.Insertion ContinuumOS.Fat32.Deletion

/-! ## Well-formed volumes -/

/-- A live slot named `.` or `..`. -/
def isDot (p : Placed) : Bool :=
  slotKind p.slot == .entry && (slotName p.slot == dotName || slotName p.slot == dotDotName)

/-- The slot is an entry with a chain of its own. -/
structure Owning (p : Placed) : Prop where
  entry : slotKind p.slot = .entry
  notDot : isDot p = false
  chained : isChained (slotCluster p.slot) = true

/-- The dot entries come first, and the slots that end the directory come last. -/
def Orderly (ps : List Placed) : Prop :=
  ps.Pairwise fun p q => (notEnd q = true → notEnd p = true) ∧ (isDot q = true → isDot p = true)

/-- The directory at `s` has the entry `p`, which has a chain. -/
def Holds (w : World) (s : Nat) (p : Placed) : Prop :=
  ∃ l, ChainFrom w s l ∧ p ∈ dirSlots w l ∧ Owning p

/-- The directories of a volume. -/
inductive Directory (w : World) : Nat → Prop
  | root : Directory w w.fs.rootCluster
  | sub {s : Nat} {p : Placed} (parent : Directory w s) (holds : Holds w s p)
      (isDir : isDirSlot p.slot = true) : Directory w (slotCluster p.slot)

/-- The first clusters of the chains: of the directories and of their entries. -/
def Head (w : World) (dirs : Nat → Prop) (k : Nat) : Prop :=
  dirs k ∨ ∃ s p, dirs s ∧ Holds w s p ∧ slotCluster p.slot = k

/-- The directories `dirs` and their entries own disjoint chains of clusters in
use, and the slots of each directory are `good`. -/
structure Tidy (good : List Placed → Prop) (w : World) (dirs : Nat → Prop) (owner : Nat → Nat) :
    Prop where
  root : dirs w.fs.rootCluster
  chains : ∀ k, Head w dirs k → ∃ l, UsedChain w k l ∧ ∀ c ∈ l, owner c = k
  sub : ∀ s p, dirs s → Holds w s p → isDirSlot p.slot = true → dirs (slotCluster p.slot)
  notRoot : ∀ s p, dirs s → Holds w s p → slotCluster p.slot ≠ w.fs.rootCluster
  unshared : ∀ s s' p q, dirs s → dirs s' → Holds w s p → Holds w s' q →
    slotCluster p.slot = slotCluster q.slot → locationOf p = locationOf q
  good : ∀ s l, dirs s → ChainFrom w s l → good (dirSlots w l)

/-- Every cluster belongs to one entry, and the slots of every directory are in order. -/
def WellFormed (w : World) : Prop := ∃ owner, Tidy Orderly w (Directory w) owner

section

variable {good : List Placed → Prop} {w w' w'' : World} {dirs dirs' : Nat → Prop}
  {owner : Nat → Nat} {s s' k c : Nat} {l l' m : List Nat} {p q : Placed}

/-! ## Holders are unique -/

theorem holds_iff (g : Geometry w) (h : ChainFrom w s l) :
    Holds w s p ↔ p ∈ dirSlots w l ∧ Owning p := by
  constructor
  · rintro ⟨l', hl', hp, ho⟩
    rw [chainFrom_unique g h hl']
    exact ⟨hp, ho⟩
  · rintro ⟨hp, ho⟩
    exact ⟨l, h, hp, ho⟩

theorem eq_of_location (hp : p ∈ dirSlots w l) (hq : q ∈ dirSlots w l') (he : locationOf p = locationOf q) :
    p = q := by
  obtain ⟨-, -, hps⟩ := mem_dirSlots.mp hp
  obtain ⟨-, -, hqs⟩ := mem_dirSlots.mp hq
  obtain ⟨c, i, e⟩ := p
  obtain ⟨d, j, e'⟩ := q
  obtain ⟨rfl, rfl⟩ := Location.mk.inj he
  rw [show e = e' from hps.trans hqs.symm]

theorem Tidy.chain (h : Tidy good w dirs owner) (hs : dirs s) :
    ∃ l, UsedChain w s l ∧ ∀ c ∈ l, owner c = s := h.chains s (.inl hs)

theorem Tidy.owner_eq (h : Tidy good w dirs owner) (g : Geometry w) (hk : Head w dirs k)
    (hl : ChainFrom w k l) : ∀ c ∈ l, owner c = k := by
  obtain ⟨l', hl', ho⟩ := h.chains k hk
  rw [chainFrom_unique g hl hl'.toChainFrom]
  exact ho

theorem Tidy.apart (h : Tidy good w dirs owner) (g : Geometry w) (hs : Head w dirs s)
    (hk : Head w dirs k) (hl : ChainFrom w s l) (hm : ChainFrom w k m) (hne : s ≠ k) :
    ∀ c ∈ l, c ∉ m := fun c hc hcm =>
  hne ((h.owner_eq g hs hl c hc).symm.trans (h.owner_eq g hk hm c hcm))

theorem Tidy.holder (h : Tidy good w dirs owner) (g : Geometry w) (hs : dirs s) (hp : Holds w s p) :
    owner p.cluster = s := by
  obtain ⟨l, hl, hp, -⟩ := hp
  exact h.owner_eq g (.inl hs) hl _ (mem_dirSlots.mp hp).1

/-- **A chain has one holder.** -/
theorem Tidy.unique (h : Tidy good w dirs owner) (g : Geometry w) (hs : dirs s) (hs' : dirs s')
    (hp : Holds w s p) (hq : Holds w s' q) (he : slotCluster p.slot = slotCluster q.slot) :
    s = s' ∧ p = q := by
  have hloc := h.unshared s s' p q hs hs' hp hq he
  have hcluster : p.cluster = q.cluster := (Location.mk.inj hloc).1
  refine ⟨?_, ?_⟩
  · rw [← h.holder g hs hp, ← h.holder g hs' hq, hcluster]
  · obtain ⟨l, -, hp, -⟩ := hp
    obtain ⟨l', -, hq, -⟩ := hq
    exact eq_of_location hp hq hloc

theorem Tidy.reached (h : Tidy good w dirs owner) (hs : Directory w s) : dirs s := by
  induction hs with
  | root => exact h.root
  | sub _ holds isDir ih => exact h.sub _ _ ih holds isDir

theorem Tidy.directory (h : Tidy good w dirs owner) : Tidy good w (Directory w) owner where
  root := .root
  chains k hk := h.chains k (hk.imp h.reached fun ⟨s, p, hs, hp, he⟩ => ⟨s, p, h.reached hs, hp, he⟩)
  sub _ _ hs hp hd := .sub hs hp hd
  notRoot s p hs := h.notRoot s p (h.reached hs)
  unshared s s' p q hs hs' := h.unshared s s' p q (h.reached hs) (h.reached hs')
  good s l hs := h.good s l (h.reached hs)

theorem Tidy.proper (h : Tidy good w (Directory w) owner) (g : Geometry w) (hs : Directory w s) :
    ∀ p, Holds w s p → slotCluster p.slot ≠ s := by
  induction hs with
  | root => exact fun p hp => h.notRoot _ p .root hp
  | sub parent holds isDir ih =>
    intro p hp he
    obtain ⟨hparent, rfl⟩ := h.unique g (.sub parent holds isDir) parent hp holds he
    exact ih _ holds hparent

/-! ## What an edit leaves alone -/

/-- The chain `m` at `k` and its slots are as they were. -/
structure Kept (w w' : World) (k : Nat) (m : List Nat) : Prop where
  chain : UsedChain w' k m
  slots : dirSlots w' m = dirSlots w m

theorem Kept.of_bytes (hm : UsedChain w k m) (hs : SameGeometry w w')
    (hn : ∀ c ∈ m, nextOf w' c = nextOf w c) (hb : ∀ c ∈ m, clusterBuf w' c = clusterBuf w c) :
    Kept w w' k m := ⟨hm.congr hs hn, dirSlots_congr hs hb⟩

theorem Kept.holds (h : Kept w w' k m) (g : Geometry w') (hm : ChainFrom w k m)
    (hp : Holds w' k p) : Holds w k p := by
  obtain ⟨hp, ho⟩ := (holds_iff g h.chain.toChainFrom).mp hp
  exact ⟨m, hm, h.slots ▸ hp, ho⟩

theorem Kept.slotsGood (h : Kept w w' k m) (g : Geometry w') (hg : good (dirSlots w m))
    (hl : ChainFrom w' k l) : good (dirSlots w' l) := by
  rw [chainFrom_unique g hl h.chain.toChainFrom, h.slots]
  exact hg

/-- What is left after an edit that made no new holder is tidy if the chains are. -/
theorem Tidy.shrink {owner' : Nat → Nat} (h : Tidy good w dirs owner)
    (hroot : w'.fs.rootCluster = w.fs.rootCluster) (hr : dirs' w.fs.rootCluster)
    (hdirs : ∀ s, dirs' s → dirs s) (hholds : ∀ s p, dirs' s → Holds w' s p → Holds w s p)
    (hchains : ∀ k, Head w dirs k → Head w' dirs' k → ∃ l, UsedChain w' k l ∧ ∀ c ∈ l, owner' c = k)
    (hsub : ∀ s p, dirs' s → Holds w' s p → isDirSlot p.slot = true → dirs' (slotCluster p.slot))
    (hgood : ∀ s l, dirs' s → ChainFrom w' s l → good (dirSlots w' l)) :
    Tidy good w' dirs' owner' where
  root := hroot ▸ hr
  chains k hk := by
    refine hchains k ?_ hk
    rcases hk with hk | ⟨s, p, hs, hp, he⟩
    · exact .inl (hdirs k hk)
    · exact .inr ⟨s, p, hdirs s hs, hholds s p hs hp, he⟩
  sub := hsub
  notRoot s p hs hp := hroot ▸ h.notRoot s p (hdirs s hs) (hholds s p hs hp)
  unshared s s' p q hs hs' hp hq :=
    h.unshared s s' p q (hdirs s hs) (hdirs s' hs') (hholds s p hs hp) (hholds s' q hs' hq)
  good := hgood

/-- Nothing happened to the clusters in use. -/
structure Undisturbed (w w' : World) : Prop where
  same : SameGeometry w w'
  next : ∀ c, nextOf w c ≠ 0 → nextOf w' c = nextOf w c
  bytes : ∀ c, 2 ≤ c → nextOf w c ≠ 0 → clusterBuf w' c = clusterBuf w c

theorem Undisturbed.of_quiet (h : Quiet w w') : Undisturbed w w' := by
  obtain ⟨m, rfl⟩ := h
  exact ⟨⟨rfl, rfl, rfl, rfl⟩, fun _ _ => rfl, fun _ _ _ => rfl⟩

theorem Undisturbed.kept (h : Undisturbed w w') (hm : UsedChain w k m) : Kept w w' k m :=
  .of_bytes hm h.same (fun c hc => h.next c (hm.used c hc)) fun c hc =>
    h.bytes c (hm.inRange c hc).1 (hm.used c hc)

theorem Undisturbed.tidy (hw : Ready w) (hu : Undisturbed w w') (h : Tidy good w dirs owner) :
    Tidy good w' dirs owner := by
  have g := hu.same.geometry hw.geometry
  have hholds : ∀ s p, dirs s → Holds w' s p → Holds w s p := fun s p hs hp =>
    let ⟨_, hl, _⟩ := h.chain hs
    (hu.kept hl).holds g hl.toChainFrom hp
  refine h.shrink hu.same.fields.2.2.2.2.2.1 h.root (fun _ hs => hs) hholds (fun k hk _ => ?_)
    (fun s p hs hp => h.sub s p hs (hholds s p hs hp)) fun s l hs hl => ?_
  · obtain ⟨l, hl, ho⟩ := h.chains k hk
    exact ⟨l, (hu.kept hl).chain, ho⟩
  · obtain ⟨l₀, hl₀, -⟩ := h.chain hs
    exact (hu.kept hl₀).slotsGood g (h.good s l₀ hs hl₀.toChainFrom) hl

/-! ## A directory grows -/

theorem slotKind_zero : slotKind (fun _ => 0) = .endOfDirectory := rfl

theorem not_owning_zero (h : p.slot = fun _ => 0) : ¬ Owning p := fun ho => by
  have hk := ho.entry
  rw [h, slotKind_zero] at hk
  cases hk

theorem Extended.kept (he : Extended w s l w' l') (hm : UsedChain w k m) (hout : ∀ c ∈ m, c ∉ l) :
    Kept w w' k m := by
  have hout' : ∀ c ∈ m, c ∉ l' := fun c hc hc' => hm.used c hc (he.fresh c hc' (hout c hc)).2.1
  exact .of_bytes hm he.same (fun c hc => he.next c (hout' c hc)) fun c hc =>
    he.bytes c (hm.inRange c hc).1 fun hc' => absurd hc' (hout' c hc)

theorem Tidy.grown_kept (hw : Ready w) (h : Tidy good w dirs owner) (hs : dirs s)
    (hl : UsedChain w s l) (he : Extended w s l w' l') (hk : Head w dirs k) (hne : k ≠ s)
    (hm : UsedChain w k m) : Kept w w' k m :=
  Extended.kept he hm (h.apart hw.geometry hk (.inl hs) hm.toChainFrom hl.toChainFrom hne)

theorem Tidy.grown_holds (hw : Ready w) (h : Tidy good w dirs owner) (hs : dirs s)
    (hl : UsedChain w s l) (he : Extended w s l w' l') {d : Nat} (hd : dirs d) (hp : Holds w' d p) :
    Holds w d p := by
  have g := he.same.geometry hw.geometry
  by_cases hds : d = s
  · subst hds
    obtain ⟨hp, ho⟩ := (holds_iff g he.chain.toChainFrom).mp hp
    obtain ⟨zeros, hz, hzero⟩ := he.slots hl.inRange
    rw [hz] at hp
    refine ⟨l, hl.toChainFrom, (List.mem_append.mp hp).resolve_right fun hp => ?_, ho⟩
    exact not_owning_zero (hzero p hp) ho
  · obtain ⟨m, hm, -⟩ := h.chain hd
    exact (h.grown_kept hw hs hl he (.inl hd) hds hm).holds g hm.toChainFrom hp

theorem Tidy.grow (hw : Ready w) (h : Tidy good w dirs owner) (hs : dirs s) (hl : UsedChain w s l)
    (he : Extended w s l w' l') (hgood : good (dirSlots w' l')) :
    Tidy good w' dirs fun c => if c ∈ l' then s else owner c := by
  have g := he.same.geometry hw.geometry
  have hkept : ∀ {k m}, Head w dirs k → k ≠ s → UsedChain w k m → Kept w w' k m := fun hk hne hm =>
    h.grown_kept hw hs hl he hk hne hm
  have hholds : ∀ d p, dirs d → Holds w' d p → Holds w d p := fun d p hd hp =>
    h.grown_holds hw hs hl he hd hp
  refine h.shrink he.same.fields.2.2.2.2.2.1 h.root (fun _ hd => hd) hholds (fun k hk _ => ?_)
    (fun d p hd hp => h.sub d p hd (hholds d p hd hp)) fun d m hd hm => ?_
  · by_cases hks : k = s
    · subst hks
      exact ⟨l', he.chain, fun c hc => if_pos hc⟩
    · obtain ⟨m, hm, ho⟩ := h.chains k hk
      refine ⟨m, (hkept hk hks hm).chain, fun c hc => ?_⟩
      have hout : c ∉ l' := fun hc' => by
        have hcl := h.apart hw.geometry hk (.inl hs) hm.toChainFrom hl.toChainFrom hks c hc
        exact hm.used c hc (he.fresh c hc' hcl).2.1
      rw [if_neg hout, ho c hc]
  · by_cases hds : d = s
    · subst hds
      rw [chainFrom_unique g hm he.chain.toChainFrom]
      exact hgood
    · obtain ⟨m₀, hm₀, -⟩ := h.chain hd
      exact (hkept (.inl hd) hds hm₀).slotsGood g (h.good d m₀ hd hm₀.toChainFrom) hm

/-! ## Slots are written -/

theorem Rewritten.kept (hr : Rewritten w l w') (hm : UsedChain w k m) (hout : ∀ c ∈ m, c ∉ l) :
    Kept w w' k m :=
  .of_bytes hm hr.same (fun c _ => hr.next c) fun c hc =>
    hr.bytes c (hm.inRange c hc).1 (hout c hc)

/-- An entry may be put into a directory: its chain is the one of a directory
that is no other entry's. -/
structure Entitled (w : World) (dirs : Nat → Prop) (p : Placed) : Prop where
  dir : dirs (slotCluster p.slot)
  notRoot : slotCluster p.slot ≠ w.fs.rootCluster
  new : ∀ s q, dirs s → Holds w s q → slotCluster q.slot ≠ slotCluster p.slot

/-- **At most one new entry was written.** -/
theorem Tidy.put (hw : Ready w) (h : Tidy good w dirs owner) (hs : dirs s) (hl : UsedChain w s l)
    (hr : Rewritten w l w') (hput : ∀ q ∈ dirSlots w' l, Owning q →
      q ∈ dirSlots w l ∨ q = p ∧ Entitled w dirs p) (hgood : good (dirSlots w' l)) :
    Tidy good w' dirs owner := by
  have g := hr.same.geometry hw.geometry
  have hroot : w'.fs.rootCluster = w.fs.rootCluster := hr.same.fields.2.2.2.2.2.1
  have hl' : UsedChain w' s l := hl.congr hr.same fun c _ => hr.next c
  have hkept : ∀ {k m}, dirs k → k ≠ s → UsedChain w k m → Kept w w' k m := fun hk hne hm =>
    Rewritten.kept hr hm
      (h.apart hw.geometry (.inl hk) (.inl hs) hm.toChainFrom hl.toChainFrom hne)
  have hholds : ∀ d q, dirs d → Holds w' d q → Holds w d q ∨ q = p ∧ Entitled w dirs p := by
    intro d q hd hq
    by_cases hds : d = s
    · subst hds
      obtain ⟨hq, ho⟩ := (holds_iff g hl'.toChainFrom).mp hq
      exact (hput q hq ho).imp_left fun hq => ⟨l, hl.toChainFrom, hq, ho⟩
    · obtain ⟨m, hm, -⟩ := h.chain hd
      exact .inl ((hkept hd hds hm).holds g hm.toChainFrom hq)
  refine ⟨hroot ▸ h.root, fun k hk => ?_, fun d q hd hq hdir => ?_, fun d q hd hq => ?_,
    fun d d' q q' hd hd' hq hq' he => ?_, fun d m hd hm => ?_⟩
  · have hk : Head w dirs k := by
      rcases hk with hk | ⟨d, q, hd, hq, rfl⟩
      · exact .inl hk
      · rcases hholds d q hd hq with hq | ⟨rfl, hnew⟩
        · exact .inr ⟨d, q, hd, hq, rfl⟩
        · exact .inl hnew.dir
    obtain ⟨m, hm, ho⟩ := h.chains k hk
    exact ⟨m, hm.congr hr.same fun c _ => hr.next c, ho⟩
  · rcases hholds d q hd hq with hq | ⟨rfl, hnew⟩
    · exact h.sub d q hd hq hdir
    · exact hnew.dir
  · rw [hroot]
    rcases hholds d q hd hq with hq | ⟨rfl, hnew⟩
    · exact h.notRoot d q hd hq
    · exact hnew.notRoot
  · rcases hholds d q hd hq with hq | ⟨rfl, hnew⟩ <;>
      rcases hholds d' q' hd' hq' with hq' | ⟨rfl, hnew'⟩
    · exact h.unshared d d' q q' hd hd' hq hq' he
    · exact absurd he (hnew'.new d q hd hq)
    · exact absurd he.symm (hnew.new d' q' hd' hq')
    · rfl
  · by_cases hds : d = s
    · subst hds
      rw [chainFrom_unique g hm hl'.toChainFrom]
      exact hgood
    · obtain ⟨m₀, hm₀, -⟩ := h.chain hd
      exact (hkept hd hds hm₀).slotsGood g (h.good d m₀ hd hm₀.toChainFrom) hm

/-! ## A new directory -/

/-- The free cluster `k` was taken and holds `b`. -/
structure Taken (w : World) (k : Nat) (b : Buf) (w' : World) : Prop where
  inRange : InRange w k
  free : nextOf w k = 0
  same : SameGeometry w w'
  faults : w'.faults = w.faults
  openFiles : w'.openFiles = w.openFiles
  next : ∀ c, nextOf w' c = if c = k then endCluster else nextOf w c
  bytes : ∀ c, 2 ≤ c → c ≠ k → clusterBuf w' c = clusterBuf w c
  holds : clusterBuf w' k = b

theorem Taken.ready {b : Buf} (h : Taken w k b w') (hw : Ready w) : Ready w' :=
  hw.of_same h.same h.faults

theorem Taken.undisturbed {b : Buf} (h : Taken w k b w') : Undisturbed w w' := by
  have hne : ∀ c, nextOf w c ≠ 0 → c ≠ k := fun c hc he => hc (he ▸ h.free)
  exact ⟨h.same, fun c hc => by rw [h.next, if_neg (hne c hc)], fun c h2 hc => h.bytes c h2 (hne c hc)⟩

theorem Taken.chain {b : Buf} (h : Taken w k b w') : UsedChain w' k [k] := by
  have hk : nextOf w' k = endCluster := by rw [h.next, if_pos rfl]
  refine ⟨⟨rfl, ⟨endCluster, not_isChained_endCluster, hk, trivial⟩, fun c hc => ?_, by simp⟩,
    fun c hc => ?_⟩
  · rw [List.mem_singleton.mp hc]
    exact h.same.inRange.mpr h.inRange
  · rw [List.mem_singleton.mp hc, hk]
    exact endCluster_ne_zero

theorem Tidy.head_used (h : Tidy good w dirs owner) (hk : Head w dirs k) : nextOf w k ≠ 0 := by
  obtain ⟨l, hl, -⟩ := h.chains k hk
  exact hl.used k (List.mem_of_head? hl.head)

theorem Taken.tidy {b : Buf} (hw : Ready w) (ht : Taken w k b w') (h : Tidy good w dirs owner)
    (hempty : ∀ p ∈ dirSlots w' [k], ¬ Owning p) (hgood : good (dirSlots w' [k])) :
    Tidy good w' (fun d => dirs d ∨ d = k) fun c => if c = k then k else owner c := by
  have g := ht.same.geometry hw.geometry
  have hold := ht.undisturbed.tidy hw h
  have hnone : ∀ q, ¬ Holds w' k q := fun q hq =>
    let ⟨hq, ho⟩ := (holds_iff g ht.chain.toChainFrom).mp hq
    hempty q hq ho
  have hholds : ∀ {d q}, (dirs d ∨ d = k) → Holds w' d q → dirs d := fun hd hq =>
    hd.resolve_right fun he => hnone _ (he ▸ hq)
  refine ⟨.inl hold.root, fun d hd => ?_, fun d q hd hq hdir => .inl (hold.sub d q (hholds hd hq) hq hdir),
    fun d q hd hq => hold.notRoot d q (hholds hd hq) hq,
    fun d d' q q' hd hd' hq hq' => hold.unshared d d' q q' (hholds hd hq) (hholds hd' hq') hq hq',
    fun d m hd hm => ?_⟩
  · by_cases hdk : d = k
    · subst hdk
      exact ⟨[d], ht.chain, fun c hc => if_pos (List.mem_singleton.mp hc)⟩
    · have hd : Head w' dirs d := by
        rcases hd with hd | ⟨d', q, hd', hq, he⟩
        · exact .inl (hd.resolve_right hdk)
        · exact .inr ⟨d', q, hholds hd' hq, hq, he⟩
      have hd₀ : Head w dirs d := by
        rcases hd with hd | ⟨d', q, hd', hq, he⟩
        · exact .inl hd
        · obtain ⟨l₀, hl₀, -⟩ := h.chain hd'
          exact .inr ⟨d', q, hd', (ht.undisturbed.kept hl₀).holds g hl₀.toChainFrom hq, he⟩
      obtain ⟨m, hm, ho⟩ := h.chains d hd₀
      refine ⟨m, (ht.undisturbed.kept hm).chain, fun c hc => ?_⟩
      rw [if_neg fun he : c = k => hm.used c hc (he ▸ ht.free), ho c hc]
  · rcases hd with hd | rfl
    · exact hold.good d m hd hm
    · rw [chainFrom_unique g hm ht.chain.toChainFrom]
      exact hgood

/-! ## A chain is given up -/

/-- The chain `lc` at `k` was freed, and the slots of the directory at `s`, which
held it if one did, were written without it. -/
theorem Tidy.discard {lc : List Nat} {w₁ : World} (hw : Ready w) (h : Tidy good w dirs owner)
    (hk : UsedChain w k lc ∧ Head w dirs k ∨ isChained k = false ∧ lc = [])
    (hkroot : k ≠ w.fs.rootCluster) (hs : dirs s) (hsk : s ≠ k) (hl : UsedChain w s l)
    (hrel : Released w lc w₁) (hr : Rewritten w₁ l w')
    (hkept : ∀ p ∈ dirSlots w' l, Owning p → p ∈ dirSlots w l)
    (hgone : ∀ d p, dirs d → d ≠ k → Holds w d p → slotCluster p.slot = k →
      d = s ∧ p ∉ dirSlots w' l)
    (hgood : good (dirSlots w' l)) : Tidy good w' (fun d => dirs d ∧ d ≠ k) owner := by
  have hsame := hrel.same.trans hr.same
  have g := hsame.geometry hw.geometry
  -- the chains that are still owned do not meet the one that is freed
  have hout : ∀ {d m}, Head w dirs d → d ≠ k → UsedChain w d m → ∀ c ∈ m, c ∉ lc := by
    intro d m hd hne hm c hc
    rcases hk with ⟨hlc, hkh⟩ | ⟨-, rfl⟩
    · exact h.apart hw.geometry hd hkh hm.toChainFrom hlc.toChainFrom hne c hc
    · simp
  have hchain : ∀ {d m}, Head w dirs d → d ≠ k → UsedChain w d m → UsedChain w' d m :=
    fun hd hne hm => hm.congr hsame fun c hc => by
      rw [hr.next, hrel.next, if_neg (hout hd hne hm c hc)]
  have hl' : UsedChain w' s l := hchain (.inl hs) hsk hl
  have hother : ∀ {d m}, dirs d → d ≠ k → d ≠ s → UsedChain w d m → Kept w w' d m := by
    intro d m hd hne hds hm
    refine ⟨hchain (.inl hd) hne hm, dirSlots_congr hsame fun c hc => ?_⟩
    rw [hr.bytes c (hm.inRange c hc).1 (h.apart hw.geometry (.inl hd) (.inl hs) hm.toChainFrom
      hl.toChainFrom hds c hc), hrel.bytes]
  have hholds : ∀ d p, dirs d ∧ d ≠ k → Holds w' d p → Holds w d p := by
    rintro d p ⟨hd, hne⟩ hp
    by_cases hds : d = s
    · subst hds
      obtain ⟨hp, ho⟩ := (holds_iff g hl'.toChainFrom).mp hp
      exact ⟨l, hl.toChainFrom, hkept p hp ho, ho⟩
    · obtain ⟨m, hm, -⟩ := h.chain hd
      exact (hother hd hne hds hm).holds g hm.toChainFrom hp
  have hne : ∀ d p, dirs d ∧ d ≠ k → Holds w' d p → slotCluster p.slot ≠ k := by
    rintro d p hd hp he
    obtain ⟨rfl, hnot⟩ := hgone d p hd.1 hd.2 (hholds d p hd hp) he
    exact hnot ((holds_iff g hl'.toChainFrom).mp hp).1
  refine h.shrink hsame.fields.2.2.2.2.2.1 ⟨h.root, hkroot.symm⟩ (fun d hd => hd.1) hholds
    (fun d hd hd' => ?_) (fun d p hd hp hdir => ⟨h.sub d p hd.1 (hholds d p hd hp) hdir,
      hne d p hd hp⟩) fun d m hd hm => ?_
  · have hdk : d ≠ k := by
      rcases hd' with hd' | ⟨d', p, hd', hp, rfl⟩
      · exact hd'.2
      · exact hne d' p hd' hp
    obtain ⟨m, hm, ho⟩ := h.chains d hd
    exact ⟨m, hchain hd hdk hm, ho⟩
  · by_cases hds : d = s
    · subst hds
      rw [chainFrom_unique g hm hl'.toChainFrom]
      exact hgood
    · obtain ⟨m₀, hm₀, -⟩ := h.chain hd.1
      exact (hother hd.1 hd.2 hds hm₀).slotsGood g (h.good d m₀ hd.1 hm₀.toChainFrom) hm

end

end ContinuumOS.Fat32.Ownership
