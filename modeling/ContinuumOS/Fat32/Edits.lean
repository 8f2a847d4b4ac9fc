import ContinuumOS.Fat32.Entries

/-! # Edits of a volume

`fat32_create`, `fat32_mkdir_path`, `fat32_remove` and `fat32_rmdir_path` keep a
volume well formed, whichever calls of `kmalloc` fail, except for the one that
`fat32_mark_entry_deleted` makes when the entry's chain has been freed. What they
keep of the slots of a directory is a parameter. -/
namespace ContinuumOS.Fat32.Edits
open ContinuumOS.Lib.Effect ContinuumOS.Lib.Memory ContinuumOS.Lib.MapEnd ContinuumOS.Libc.String
open ContinuumOS.Fat32.Volume ContinuumOS.Fat32.Device ContinuumOS.Fat32.Allocation
open ContinuumOS.Fat32.Names ContinuumOS.Fat32.Directory ContinuumOS.Fat32.Scan
open ContinuumOS.Fat32.Paths ContinuumOS.Fat32.Search ContinuumOS.Fat32.Aliases
open ContinuumOS.Fat32.LongName ContinuumOS.Fat32.Insertion ContinuumOS.Fat32.Deletion
open ContinuumOS.Fat32.Ownership ContinuumOS.Fat32.Entries

/-! ## Edits of a list of slots -/

/-- The entry `p` goes into free slots `found`, with long-name slots `mid` before it. -/
structure PutIn (pre found mid post : List Placed) (p : Placed) : Prop where
  ne_nil : found ≠ []
  free : ∀ q ∈ found, slotFree q = true
  pre_used : ∀ q, pre.getLast? = some q → slotFree q = false
  mid : ∀ q ∈ mid, slotKind q.slot = .longName
  notEnd : notEnd p = true
  notDot : isDot p = false
  unused : Unused (pre ++ found ++ post) (slotName p.slot)

/-- A property of the slots of a directory that the edits keep. -/
structure Lasting (good : List Placed → Prop) : Prop where
  orderly : ∀ ps, good ps → Orderly ps
  grown : ∀ ps zeros, good ps → (∀ p ∈ zeros, p.slot = fun _ => 0) → good (ps ++ zeros)
  put : ∀ pre found mid post p, good (pre ++ found ++ post) → PutIn pre found mid post p →
    good (pre ++ (mid ++ [p]) ++ post)
  erased : ∀ pre p post, good (pre ++ p :: post) → slotKind p.slot = .entry → isDot p = false →
    good (mapEnd isLfnSlot erased pre ++ erased p :: post)
  fresh : ∀ a b zeros, isDot a = true → isDot b = true → slotName a.slot = dotName →
    slotName b.slot = dotDotName → (∀ p ∈ zeros, p.slot = fun _ => 0) → good (a :: b :: zeros)

/-- A tidy volume whose directories are those that are reached. -/
def InOrder (good : List Placed → Prop) (w : World) : Prop := ∃ owner, Tidy good w (Directory w) owner

section

variable {good : List Placed → Prop} {w w' w'' : World} {dirs : Nat → Prop} {owner : Nat → Nat}
  {s k : Nat} {l l' : List Nat} {p q : Placed} {name : CStr} {attributes : UInt8} {cluster : Nat}
  {short : ShortName} {lfn : Bool} {ps pre found mid post zeros : List Placed}

theorem notEnd_zero (h : p.slot = fun _ => 0) : notEnd p = false := by
  rw [notEnd, h, slotKind_zero]
  rfl

theorem reports_append_zeros (hz : ∀ p ∈ zeros, p.slot = fun _ => 0) :
    reports (ps ++ zeros) = reports ps := by
  have hnone : zeros.takeWhile notEnd = [] := by
    cases zeros with
    | nil => rfl
    | cons z zeros => rw [List.takeWhile_cons, notEnd_zero (hz z (by simp))]; rfl
  have htake : (ps ++ zeros).takeWhile notEnd = ps.takeWhile notEnd := by
    rw [List.takeWhile_append, hnone, List.append_nil]
    split
    · rename_i hlen
      exact ((List.takeWhile_prefix notEnd).eq_of_length hlen).symm
    · rfl
  rw [reports, reports, htake]

/-! ## What is written for a new entry -/

theorem Chosen.first_ne (h : Chosen name short) (h0 : 0 ∉ name) :
    short.first ≠ 0 ∧ short.first ≠ dot := by
  rcases h with h | ⟨suffix, rfl⟩
  · obtain ⟨hne, -, -, hok, -, rfl⟩ := buildShortName_some h
    obtain ⟨c, base, hb⟩ := List.exists_cons_of_ne_nil hne
    have hc : c ∈ beforeDot name := by simp [hb]
    have hr := hok c hc
    rw [hb, List.map_cons, first_ofParts]
    refine ⟨fun hz => ?_, fun hd => by rw [hd] at hr; exact absurd hr (by decide)⟩
    rw [fat32ToUpper] at hz
    split at hz
    · rename_i hcap
      have h₁ : 0x61 ≤ c.toNat := hcap.1
      have hsub : (c - 0x20).toNat = c.toNat - 0x20 := UInt8.toNat_sub_of_le _ _ (by
        change 0x20 ≤ c.toNat
        omega)
      rw [hz] at hsub
      change 0 = _ at hsub
      omega
    · exact h0 (hz ▸ mem_of_mem_beforeDot hc)
  · have hs := startsEntry_alias (sanitizedBase_spec name).1 (sanitizedBase_spec name).2
      (sanitizedExt name) suffix
    exact ⟨hs.1, hs.2.2⟩

theorem slots_fill {found : List Placed} : ∀ {entries : List Buf}, found.length = entries.length →
    (fill found entries).map Placed.slot = entries := by
  induction found with
  | nil => intro entries h; rw [List.eq_nil_of_length_eq_zero h.symm]; rfl
  | cons p found ih =>
    intro entries h
    obtain ⟨e, entries, rfl⟩ := List.exists_cons_of_length_eq_add_one h.symm
    exact congrArg (e :: ·) (ih (by simpa using h))

theorem fill_entryBytes (hname : name.length ≤ 255)
    (hlen : found.length = (entryBytes name short lfn attributes cluster).length) :
    ∃ mid p, fill found (entryBytes name short lfn attributes cluster) = mid ++ [p] ∧
      p.slot = dirEntry short attributes cluster 0 ∧ ∀ q ∈ mid, slotKind q.slot = .longName := by
  have hslots := slots_fill hlen
  rw [entryBytes] at hslots
  obtain ⟨mid, rest, hfill, hmid, hrest⟩ := List.map_eq_append_iff.mp hslots
  obtain ⟨p, rfl, hp⟩ := List.map_eq_singleton_iff.mp hrest
  refine ⟨mid, p, hfill, hp, fun q hq => ?_⟩
  have hmem : q.slot ∈ if lfn then lfnSlots name short else [] := hmid ▸ List.mem_map_of_mem hq
  split at hmem
  · exact slotKind_lfnSlots hname hmem
  · cases hmem

/-- **An entry that was added was put into free slots.** -/
theorem Added.putIn {w₁ : World} (hl : ∀ c ∈ l, InRange w c) (h0 : 0 ∉ name)
    (h : Added w s l name attributes cluster w' l' short lfn w₁ pre found post) :
    ∃ mid p, dirSlots w' l' = pre ++ (mid ++ [p]) ++ post ∧ PutIn pre found mid post p ∧
      p.slot = dirEntry short attributes cluster 0 := by
  obtain ⟨mid, p, hfill, hp, hmid⟩ := fill_entryBytes h.length_le h.length
  obtain ⟨hfirst, hdot⟩ := Chosen.first_ne h.suited.chosen h0
  have hslot0 : p.slot 0 = short.first := by rw [hp, dirEntry_first]
  have hname : slotName p.slot = short := by rw [hp, slotName_dirEntry]
  obtain ⟨zeros, hz, hzero⟩ := h.extended.slots hl
  have hunused : Unused (pre ++ found ++ post) (slotName p.slot) := by
    rw [← h.before, hz, Unused, reports_append_zeros hzero, hname]
    exact h.suited.unused
  have hpos : found ≠ [] := by
    rintro rfl
    have hlen := h.length
    rw [length_entryBytes] at hlen
    cases hlen
  refine ⟨mid, p, hfill ▸ h.after, ⟨hpos, h.free, h.pre_used, hmid, ?_, ?_, hunused⟩, hp⟩
  · rw [notEnd, decide_eq_true_eq, slotKind, hslot0, if_neg hfirst]
    split
    · decide
    · split
      · decide
      · split <;> decide
  · refine Bool.eq_false_iff.mpr fun hd => hdot ?_
    rcases (isDot_iff.mp hd).2 with hn | hn <;>
    · rw [← hname, hn]
      decide

/-! ## An entry is added -/

theorem AddsEntry.tidy (hk : Lasting good) (hw : Ready w) (h : Tidy good w dirs owner) (hs : dirs s)
    (hl : UsedChain w s l) (h0 : 0 ∉ name) (hc : cluster < 2 ^ 32)
    (hent : isChained cluster = true → dirs cluster ∧ cluster ≠ w.fs.rootCluster ∧
      ∀ d q, dirs d → Holds w d q → slotCluster q.slot ≠ cluster) {ok : Bool}
    (ha : AddsEntry w s l name attributes cluster ok w') :
    Ready w' ∧ ∃ owner', Tidy good w' dirs owner' := by
  cases ok with
  | false =>
    obtain ⟨l', he⟩ := ha
    obtain ⟨zeros, hz, hzero⟩ := he.slots hl.inRange
    refine ⟨he.ready hw, _, h.grow hw hs hl he ?_⟩
    rw [hz]
    exact hk.grown _ _ (h.good s l hs hl.toChainFrom) hzero
  | true =>
    obtain ⟨l', short, lfn, w₁, pre, found, post, ha⟩ := ha
    have he := ha.extended
    obtain ⟨zeros, hz, hzero⟩ := he.slots hl.inRange
    have hgood : good (dirSlots w₁ l') := by
      rw [hz]
      exact hk.grown _ _ (h.good s l hs hl.toChainFrom) hzero
    obtain ⟨mid, p, hafter, hput, hp⟩ := Added.putIn hl.inRange h0 ha
    have hcl : slotCluster p.slot = cluster := by rw [hp, slotCluster_dirEntry hc]
    refine ⟨ha.written.ready (he.ready hw), _, (h.grow hw hs hl he hgood).put (he.ready hw) hs
      he.chain (p := p) ha.written (fun q hq ho => ?_) ?_⟩
    · rw [hafter] at hq
      rw [ha.before]
      rcases List.mem_append.mp hq with hq | hq
      · rcases List.mem_append.mp hq with hq | hq
        · exact .inl (by simp [hq])
        · rcases List.mem_append.mp hq with hq | hq
          · have hentry := ho.entry
            rw [hput.mid q hq] at hentry
            cases hentry
          · obtain rfl := List.mem_singleton.mp hq
            have hchained := ho.chained
            rw [hcl] at hchained
            obtain ⟨hdir, hroot, hnew⟩ := hent hchained
            refine .inr ⟨rfl, hcl ▸ hdir, ?_, fun d r hd hr => ?_⟩
            · rw [hcl, he.same.fields.2.2.2.2.2.1]
              exact hroot
            · rw [hcl]
              exact hnew d r hd (h.grown_holds hw hs hl he hd hr)
      · exact .inl (by simp [hq])
    · rw [hafter]
      exact hk.put _ _ _ _ _ (ha.before ▸ hgood) hput

theorem InOrder.quiet (hw : Ready w) (h : InOrder good w) (hq : Quiet w w') :
    Ready w' ∧ InOrder good w' := by
  obtain ⟨owner, h⟩ := h
  exact ⟨ready_quiet hw hq, owner, ((Undisturbed.of_quiet hq).tidy hw h).directory⟩

/-- **`fat32_create` keeps the volume in order.** -/
theorem create_inOrder (hk : Lasting good) (hw : Ready w) (h : InOrder good w) {path : CStr}
    (h0 : 0 ∉ path) : Triple (Quiet w) (fat32Create path) fun _ w' => Ready w' ∧ InOrder good w' := by
  have hstay : ∀ b : Bool, Triple (Quiet w) (pure b : Fat Bool) fun _ w' =>
      Ready w' ∧ InOrder good w' := fun b => .pure fun t hq => h.quiet hw hq
  obtain ⟨owner, ht⟩ := h
  rw [fat32Create]
  refine .get_bind fun t hq => .pre (P := Quiet w) ?_ fun u hu => hu ▸ hq
  refine .ite (fun _ => hstay _) fun _ => .ite (fun _ => hstay _) fun _ => ?_
  refine .bind (findParent_hits hw ht hk.orderly h0) fun r => ?_
  match r with
  | none => exact (hstay _).pre fun u hu => hu.2
  | some (d, name) =>
    refine .intro fun u hu => ?_
    obtain ⟨hd, hname⟩ := hu.1 d name rfl
    refine .pre (P := Quiet w) ?_ fun v hv => hv ▸ hu.2
    rcases hd with hd | hd
    · obtain ⟨l, hl, -⟩ := ht.chain hd
      refine (addEntry_adds hw hl name attrArchive 0).post fun ok v hv => ?_
      obtain ⟨hv, owner', ht'⟩ := AddsEntry.tidy hk hw ht hd hl hname (by decide)
        (fun hc => absurd hc (by decide)) hv
      exact ⟨hv, owner', ht'.directory⟩
    · exact (addEntry_unchained hw hd name attrArchive 0).post fun ok v hv =>
        InOrder.quiet hw ⟨owner, ht⟩ hv.2

/-! ## A directory is made -/

theorem Taken.quiet {b : Buf} (h : Taken w k b w') (hq : Quiet w' w'') : Taken w k b w'' := by
  obtain ⟨m, rfl⟩ := hq
  exact ⟨h.inRange, h.free, ⟨h.same.fs, h.same.mounted, h.same.present, h.same.sectorCount⟩, h.faults,
    h.openFiles, h.next, h.bytes, h.holds⟩

theorem allocate_takes (hw : Ready w) : Triple (Quiet w) (fat32AllocateCluster 0) fun k w' =>
    k = 0 ∧ Quiet w w' ∨ k ≠ 0 ∧ Taken w k (fun _ => 0) w' := by
  intro t hq k w' hr
  have ht := ready_quiet hw hq
  rw [allocateCluster_eq ht.geometry ht.noFaults ht.flushable] at hr
  split at hr
  · cases hfree : findFree t with
    | none =>
      rw [hfree] at hr
      obtain ⟨rfl, rfl⟩ := Prod.mk.inj (Option.some.inj hr)
      exact .inl ⟨rfl, hq.spend⟩
    | some c =>
      rw [hfree] at hr
      obtain ⟨rfl, rfl⟩ := Prod.mk.inj (Option.some.inj hr)
      obtain ⟨hin, hz⟩ := findFree_some hfree
      have hpos := hin.1
      have hqs := hq.spend
      have gs := (ready_quiet hw hqs).geometry
      have hsame : SameGeometry w (allocated t.spend 0 c) := hqs.same.trans sameGeometry_allocated
      obtain ⟨m, rfl⟩ := hq
      refine .inr ⟨by omega, hin, hz, hsame, allocated_same.2.2, allocated_same.1, fun a => ?_,
        fun a h2 hne => ?_, clusterBuf_allocated_same gs⟩
      · rw [allocated_next (hin.lt ht.geometry) (by omega)]
        simp only [show isChained 0 = false by decide, Bool.false_eq_true, false_and, if_false]
        rfl
      · exact clusterBuf_allocated_other gs hin.1 h2 hne
  · obtain ⟨rfl, rfl⟩ := Prod.mk.inj (Option.some.inj hr)
    exact .inl ⟨rfl, hq.spend⟩

theorem slotAt_zero (i : Nat) : slotAt (fun _ => 0) i = fun _ => 0 := by
  funext j
  rw [slotAt, ite_self]

theorem dirEntry_outside {size : Nat} : ∀ i, slotSize ≤ i → dirEntry short attributes cluster size i = 0 := by
  intro i hi
  have hi : 32 ≤ i := hi
  rw [dirEntry, if_neg (by omega), if_neg (by omega), if_neg (by omega), if_neg (by omega),
    if_neg (by omega)]

theorem emptyDirectory_outside (g : Geometry w) (k s : Nat) : ∀ i,
    w.fs.sectorsPerCluster * sectorSize ≤ i → emptyDirectory k s i = 0 := by
  intro i hi
  have h₁ := g.sectorsPerCluster_pos
  have h₂ : 1 * sectorSize ≤ w.fs.sectorsPerCluster * sectorSize := Nat.mul_le_mul_right _ h₁
  simp only [sectorSize] at hi h₂
  simp only [emptyDirectory, putSlot]
  rw [store_outside (by simp only [slotSize]; omega), store_outside (by simp only [slotSize]; omega)]

theorem initDirectory_inits (hw : Ready w) (parent : Nat) : Triple (Taken w k (fun _ => 0))
    (fat32InitDirectory k parent) fun ok w' =>
      if ok then Taken w k (emptyDirectory k parent) w' else Taken w k (fun _ => 0) w' := by
  rw [fat32InitDirectory]
  refine .get_bind fun t ht => .bind (Q := fun _ => Taken w k fun _ => 0) ?_ fun _ =>
    .ite (fun _ => ?_) fun _ => .pure fun u hu => hu
  · exact ((kmalloc_quiet _).pre fun u hu => hu ▸ .refl t).post fun _ u hu => Taken.quiet ht hu
  · intro u hu ok w' hr
    have hwu := hu.ready hw
    have hin := hu.same.inRange.mpr hu.inRange
    rw [writeCluster_eq hwu.geometry hwu.noFaults hin] at hr
    obtain ⟨rfl, rfl⟩ := Prod.mk.inj (Option.some.inj hr)
    refine ⟨hu.inRange, hu.free, hu.same.trans sameGeometry_putCluster, hu.faults, hu.openFiles,
      hu.next, fun c h2 hne => ?_, ?_⟩
    · rw [clusterBuf_putCluster_other hin.1 h2 hne]
      exact hu.bytes c h2 hne
    · exact clusterBuf_putCluster u k (emptyDirectory_outside hwu.geometry k parent)

theorem isDot_dirEntry (h : p.slot = dirEntry short attrDirectory cluster 0)
    (hn : short = dotName ∨ short = dotDotName) : isDot p = true := by
  have hfirst : short.first = dot := by rcases hn with rfl | rfl <;> decide
  have hlong : isLongName p.slot = false := by
    rw [h, isLongName, slotAttributes_dirEntry]
    decide
  refine isDot_iff.mpr ⟨?_, by rw [h, slotName_dirEntry]; exact hn⟩
  rw [slotKind, hlong, h, dirEntry_first, hfirst, slotAttributes_dirEntry]
  decide

theorem dirSlots_emptyDirectory (g : Geometry w) {parent : Nat}
    (hb : clusterBuf w k = emptyDirectory k parent) : ∃ a b zeros, dirSlots w [k] = a :: b :: zeros ∧
      isDot a = true ∧ isDot b = true ∧ slotName a.slot = dotName ∧ slotName b.slot = dotDotName ∧
      ∀ p ∈ zeros, p.slot = fun _ => 0 := by
  obtain ⟨n, hn⟩ : ∃ n, entriesPerCluster w = n + 1 + 1 := by
    have h₁ : 1 * sectorSize ≤ w.fs.sectorsPerCluster * sectorSize :=
      Nat.mul_le_mul_right _ g.sectorsPerCluster_pos
    have h₂ : 2 ≤ entriesPerCluster w := by
      rw [entriesPerCluster, g.clusterSize_eq, Nat.le_div_iff_mul_le (by decide)]
      simp only [sectorSize, slotSize] at h₁ ⊢
      omega
    exact ⟨entriesPerCluster w - 2, by omega⟩
  have hother : ∀ i, i ≠ 0 → i ≠ 1 → slotAt (emptyDirectory k parent) i = fun _ => 0 := by
    intro i h₀ h₁
    simp only [emptyDirectory]
    rw [slotAt_putSlot_other h₁, slotAt_putSlot_other h₀, slotAt_zero]
  have h₀ : slotAt (emptyDirectory k parent) 0 = dirEntry dotName attrDirectory k 0 := by
    simp only [emptyDirectory]
    rw [slotAt_putSlot_other (by decide), slotAt_putSlot_same dirEntry_outside]
  have h₁ : slotAt (emptyDirectory k parent) 1 =
      dirEntry dotDotName attrDirectory (if parent ≥ 2 then parent else k) 0 := by
    simp only [emptyDirectory]
    rw [slotAt_putSlot_same dirEntry_outside]
  refine ⟨⟨k, 0, slotAt (emptyDirectory k parent) 0⟩, ⟨k, 1, slotAt (emptyDirectory k parent) 1⟩,
    clusterSlots (emptyDirectory k parent) k 2 n, ?_, isDot_dirEntry h₀ (.inl rfl),
    isDot_dirEntry h₁ (.inr rfl), ?_, ?_, fun p hp => ?_⟩
  · rw [dirSlots, List.flatMap_singleton, hb, hn, clusterSlots_succ, clusterSlots_succ]
  · rw [h₀, slotName_dirEntry]
  · rw [h₁, slotName_dirEntry]
  · obtain ⟨i, hi, rfl⟩ := List.mem_map.mp hp
    have := (List.mem_range'_1.mp hi).1
    exact hother i (by omega) (by omega)

theorem Taken.newDirectory {parent : Nat} (hk : Lasting good) (hw : Ready w)
    (h : Tidy good w dirs owner) (ht : Taken w k (emptyDirectory k parent) w') :
    ∃ owner', Tidy good w' (fun d => dirs d ∨ d = k) owner' := by
  obtain ⟨a, b, zeros, hslots, ha, hb, hna, hnb, hz⟩ :=
    dirSlots_emptyDirectory (ht.ready hw).geometry ht.holds
  refine ⟨_, ht.tidy hw h (fun p hp ho => ?_) ?_⟩
  · rw [hslots] at hp
    rcases List.mem_cons.mp hp with rfl | hp
    · rw [ho.notDot] at ha
      cases ha
    · rcases List.mem_cons.mp hp with rfl | hp
      · rw [ho.notDot] at hb
        cases hb
      · exact not_owning_zero (hz p hp) ho
  · rw [hslots]
    exact hk.fresh a b zeros ha hb hna hnb hz

theorem Taken.released {b : Buf} (h : Taken w k b w') (hr : Released w' [k] w'') :
    Undisturbed w w'' := by
  refine ⟨h.same.trans hr.same, fun c hc => ?_, fun c h2 hc => ?_⟩
  · have hne : c ≠ k := fun he => hc (he ▸ h.free)
    rw [hr.next, if_neg (by simpa using hne), h.next, if_neg hne]
  · rw [hr.bytes]
    exact h.bytes c h2 fun he => hc (he ▸ h.free)

theorem Tidy.forget (hw : Ready w) (h : Tidy good w dirs owner) (hk : dirs k) (hkc : UsedChain w k l)
    (hroot : k ≠ w.fs.rootCluster) (hnone : ∀ d q, dirs d → Holds w d q → slotCluster q.slot ≠ k)
    (hr : Released w l w') : Tidy good w' (fun d => dirs d ∧ d ≠ k) owner := by
  obtain ⟨m, hm, -⟩ := h.chain h.root
  have hslots : dirSlots w' m = dirSlots w m := dirSlots_congr hr.same fun c _ => hr.bytes c
  refine h.discard hw (.inl ⟨hkc, .inl hk⟩) hroot h.root hroot.symm hm hr (.refl w' m)
    (fun p hp _ => hslots ▸ hp) (fun d p hd _ hp he => absurd he (hnone d p hd hp)) ?_
  rw [hslots]
  exact h.good _ m h.root hm.toChainFrom

/-- The volume as it is when a new directory has no entry yet. -/
structure Dangling (good : List Placed → Prop) (w : World) (k : Nat) : Prop where
  ready : Ready w
  tidy : ∃ dirs owner, Tidy good w dirs owner ∧ dirs k ∧
    ∀ d q, dirs d → Holds w d q → slotCluster q.slot ≠ k
  chain : UsedChain w k [k]
  notRoot : k ≠ w.fs.rootCluster

theorem Dangling.freed (h : Dangling good w k) : Triple (fun t => t = w) (fat32FreeClusterChain k)
    fun _ w' => Ready w' ∧ InOrder good w' := by
  obtain ⟨dirs, owner, ht, hk, hnone⟩ := h.tidy
  exact (freeChain_releases h.ready (.inl h.chain.toChainFrom)).post fun _ w' hr =>
    ⟨hr.ready h.ready, owner, (Tidy.forget h.ready ht hk h.chain h.notRoot hnone hr).directory⟩

/-- A new directory gets its entry, or the volume is left with the directory only. -/
theorem addEntry_newDirectory (hk : Lasting good) (hw : Ready w) (h : InOrder good w)
    (hs : DirectoryAt w s) (ht : Taken w k (emptyDirectory k s) w') (h0 : 0 ∉ name) :
    Triple (Quiet w') (addEntry s name attrDirectory k) fun ok w'' =>
      if ok then Ready w'' ∧ InOrder good w'' else Dangling good w'' k := by
  obtain ⟨owner, h⟩ := h
  have hw' := ht.ready hw
  have hkroot : k ≠ w'.fs.rootCluster := by
    rw [ht.same.fields.2.2.2.2.2.1]
    exact fun he => h.head_used (.inl .root) (he ▸ ht.free)
  obtain ⟨owner', h'⟩ := Taken.newDirectory hk hw h ht
  -- the entries that are there lead elsewhere
  have hnone : ∀ d q, (Directory w d ∨ d = k) → Holds w' d q → slotCluster q.slot ≠ k := by
    intro d q hd hq he
    rcases hd with hd | rfl
    · obtain ⟨m, hm, -⟩ := h.chain hd
      have hq := (ht.undisturbed.kept hm).holds hw'.geometry hm.toChainFrom hq
      exact h.head_used (.inr ⟨d, q, hd, hq, he⟩) ht.free
    · obtain ⟨a, b, zeros, hslots, ha, hb, -, -, hz⟩ := dirSlots_emptyDirectory hw'.geometry ht.holds
      obtain ⟨hq, ho⟩ := (holds_iff hw'.geometry ht.chain.toChainFrom).mp hq
      rw [hslots] at hq
      rcases List.mem_cons.mp hq with rfl | hq
      · rw [ho.notDot] at ha
        cases ha
      · rcases List.mem_cons.mp hq with rfl | hq
        · rw [ho.notDot] at hb
          cases hb
        · exact not_owning_zero (hz q hq) ho
  rcases hs with hs | hs
  · obtain ⟨m, hm, -⟩ := h.chain hs
    have hm' := (ht.undisturbed.kept hm).chain
    refine (addEntry_adds hw' hm' name attrDirectory k).post fun ok w'' ha => ?_
    have hlt : k < 2 ^ 32 := (ht.inRange.lt hw.geometry).trans (by decide)
    obtain ⟨hready, owner'', htidy⟩ := AddsEntry.tidy hk hw' h' (.inl hs) hm' h0 hlt
      (fun _ => ⟨.inr rfl, hkroot, hnone⟩) ha
    cases ok with
    | true => exact ⟨hready, owner'', htidy.directory⟩
    | false =>
      obtain ⟨m', he⟩ := ha
      have hne : k ≠ s := fun hks => h.head_used (.inl hs) (hks ▸ ht.free)
      refine ⟨hready, ⟨_, owner'', htidy, .inr rfl, fun d q hd hq => ?_⟩, ?_, ?_⟩
      · exact hnone d q hd (h'.grown_holds hw' (.inl hs) hm' he hd hq)
      · exact (h'.grown_kept hw' (.inl hs) hm' he (.inl (.inr rfl)) hne ht.chain).chain
      · rw [he.same.fields.2.2.2.2.2.1]
        exact hkroot
  · refine (addEntry_unchained hw' hs name attrDirectory k).post fun ok w'' ha => ?_
    obtain ⟨rfl, hq⟩ := ha
    have hu := Undisturbed.of_quiet hq
    refine ⟨ready_quiet hw' hq, ⟨_, owner', hu.tidy hw' h', .inr rfl, fun d q hd hq' => ?_⟩,
      (hu.kept ht.chain).chain, ?_⟩
    · obtain ⟨m, hm, -⟩ := h'.chain hd
      exact hnone d q hd ((hu.kept hm).holds (ready_quiet hw' hq).geometry hm.toChainFrom hq')
    · rw [hu.same.fields.2.2.2.2.2.1]
      exact hkroot

/-- **`fat32_mkdir_path` keeps the volume in order.** -/
theorem mkdirPath_inOrder (hk : Lasting good) (hw : Ready w) (h : InOrder good w) {path : CStr}
    (h0 : 0 ∉ path) : Triple (Quiet w) (fat32MkdirPath path) fun _ w' => Ready w' ∧ InOrder good w' := by
  have hstay : ∀ b : Bool, Triple (Quiet w) (pure b : Fat Bool) fun _ w' =>
      Ready w' ∧ InOrder good w' := fun b => .pure fun t hq => h.quiet hw hq
  obtain ⟨owner, ht⟩ := h
  rw [fat32MkdirPath]
  refine .get_bind fun t hq => .pre (P := Quiet w) ?_ fun u hu => hu ▸ hq
  refine .ite (fun _ => hstay _) fun _ => .ite (fun _ => hstay _) fun _ =>
    .ite (fun _ => hstay _) fun _ => ?_
  refine .bind (findParent_hits hw ht hk.orderly h0) fun r => ?_
  match r with
  | none => exact (hstay _).pre fun u hu => hu.2
  | some (d, name) =>
    refine .intro fun u hu => ?_
    obtain ⟨hd, hname⟩ := hu.1 d name rfl
    refine .bind ((allocate_takes hw).pre fun v hv => hv ▸ hu.2) fun k => .intro fun v hv => ?_
    refine .ite (fun hz => ?_) fun hz => ?_
    · exact (hstay _).pre fun x hx => hx ▸ (hv.resolve_right fun h => h.1 hz).2
    have hv := (hv.resolve_left fun h => hz h.1).2
    refine .bind ((initDirectory_inits hw d).pre fun x hx => hx ▸ hv) fun ok => .intro fun x hx => ?_
    refine .ite (fun hok => ?_) fun hok => ?_
    · -- the directory is written
      rw [if_pos hok] at hx
      refine .bind ((addEntry_newDirectory hk hw ⟨owner, ht⟩ hd hx hname).pre fun y hy =>
        hy ▸ .refl x) fun ok => .ite (fun hok => .pure fun y hy => ?_) fun hok => ?_
      · rw [if_pos hok] at hy
        exact hy
      · refine .intro fun y hy => ?_
        rw [if_neg hok] at hy
        exact .bind hy.freed fun _ => .pure fun z hz => hz
    · rw [if_neg hok] at hx
      refine .bind (freeChain_releases (hx.ready hw) (.inl hx.chain.toChainFrom)) fun _ =>
        .pure fun z hz => ?_
      have hu := Taken.released hx hz
      exact ⟨hz.ready (hx.ready hw), owner, (hu.tidy hw ht).directory⟩

/-! ## An entry is given up -/

theorem slotKind_erased (p : Placed) : slotKind (erased p).slot = .deleted := by
  rw [slotKind, erased]
  simp

theorem not_owning_erased : ¬ Owning (erased p) := fun ho => by
  have hentry := ho.entry
  rw [slotKind_erased] at hentry
  cases hentry

theorem Unlisted.entry (h : Unlisted w l pre p post w') (hl : dirSlots w l = pre ++ p :: post)
    (hq : q ∈ dirSlots w' l) (ho : Owning q) : q ∈ dirSlots w l := by
  rw [h.slots] at hq
  rw [hl]
  rcases List.mem_append.mp hq with hq | hq
  · rcases mem_mapEnd hq with hq | ⟨r, -, -, rfl⟩
    · simp [hq]
    · exact absurd ho not_owning_erased
  · rcases List.mem_cons.mp hq with rfl | hq
    · exact absurd ho not_owning_erased
    · simp [hq]

theorem Unlisted.gone (h : Unlisted w l pre p post w') (hentry : slotKind p.slot = .entry) :
    p ∉ dirSlots w' l := fun hm => by
  have he : erased p ∈ dirSlots w' l := by rw [h.slots]; simp
  have hkind := slotKind_erased p
  rw [← eq_of_location hm he rfl, hentry] at hkind
  cases hkind

/-- `lc` is the chain of the entry that a lookup gave; it is neither the chain of the
entry's directory nor that of the root directory. -/
structure Contents (w : World) (x : Paths.Lookup) (lc : List Nat) : Prop where
  chain : UsedChain w x.info.cluster lc ∧ Head w (Directory w) x.info.cluster ∨
    isChained x.info.cluster = false ∧ lc = []
  ne_parent : x.parentDir ≠ x.info.cluster
  ne_root : x.info.cluster ≠ w.fs.rootCluster

theorem Contents.clusters {x : Paths.Lookup} {lc : List Nat} (h : Contents w x lc) :
    DirClusters w x.info.cluster lc := h.chain.imp (fun h => h.1.toChainFrom) id

theorem Contents.apart {x : Paths.Lookup} {lc m : List Nat} {d : Nat} (hc : Contents w x lc)
    (hw : Ready w) (h : Tidy good w (Directory w) owner) (hd : Head w (Directory w) d)
    (hm : ChainFrom w d m) (hne : d ≠ x.info.cluster) : ∀ c ∈ m, c ∉ lc := by
  rcases hc.chain with ⟨hlc, hhead⟩ | ⟨-, rfl⟩
  · exact h.apart hw.geometry hd hhead hm hlc.toChainFrom hne
  · simp

theorem Hit.contents (hw : Ready w) (h : Tidy good w (Directory w) owner) {x : Paths.Lookup}
    (hx : Hit w x p) : ∃ lc, Contents w x lc := by
  have hcl := hx.info_cluster
  have hchained : ∀ {d}, Head w (Directory w) d → isChained d = true := fun hd =>
    let ⟨_, hm, _⟩ := h.chains _ hd
    (hm.inRange _ (List.mem_of_head? hm.head)).isChained hw.geometry
  cases hc : isChained x.info.cluster with
  | false =>
    refine ⟨[], .inr ⟨hc, rfl⟩, fun he => ?_, fun he => ?_⟩
    · have := hchained (.inl hx.parent)
      rw [he, hc] at this
      cases this
    · have := hchained (.inl .root)
      rw [← he, hc] at this
      cases this
  | true =>
    have hholds := hx.holds (hcl ▸ hc)
    have hhead : Head w (Directory w) x.info.cluster := .inr ⟨_, p, hx.parent, hholds, hcl.symm⟩
    obtain ⟨lc, hlc, -⟩ := h.chains _ hhead
    exact ⟨lc, .inl ⟨hlc, hhead⟩, hcl ▸ (h.proper hw.geometry hx.parent p hholds).symm,
      hcl ▸ h.notRoot _ p hx.parent hholds⟩

/-- **Giving up an entry keeps the volume in order**, if a buffer can be had when
the entry's chain was freed. -/
theorem dropEntry_inOrder (hk : Lasting good) (hw : Ready w) (h : InOrder good w) {x : Paths.Lookup}
    (hx : Hit w x p) (hmem : isChained x.info.cluster = true → w.mallocs 0 = true) :
    Triple (fun t => t = w) (dropEntry x) fun _ w' => Ready w' ∧ InOrder good w' := by
  obtain ⟨owner, h⟩ := h
  obtain ⟨l, hl, hlo⟩ := h.chain hx.parent
  obtain ⟨l', hl', hp⟩ := hx.listed
  obtain rfl := chainFrom_unique hw.geometry hl' hl.toChainFrom
  obtain ⟨pre, post, hslots⟩ := List.append_of_mem hp
  have hcl := hx.info_cluster
  obtain ⟨lc, hcontents⟩ := Hit.contents hw h hx
  have hsk := hcontents.ne_parent
  have hdis := hcontents.apart hw h (.inl hx.parent) hl.toChainFrom hsk
  refine (dropEntry_drops hw hl hslots rfl hx.cluster hx.index hcontents.clusters hdis).post
    fun ok w' hok => ?_
  obtain ⟨w₁, hrel, hok⟩ := hok
  cases ok with
  | true =>
    have hun : Unlisted w₁ l' pre p post w' := hok
    have hslots₁ : dirSlots w₁ l' = dirSlots w l' := dirSlots_congr hrel.same fun c _ => hrel.bytes c
    refine ⟨hun.rewritten.ready (hrel.ready hw), owner, (h.discard hw hcontents.chain
      hcontents.ne_root hx.parent hsk hl hrel hun.rewritten (fun q hq ho => ?_)
      (fun d q hd hdk hq he => ?_) ?_).directory⟩
    · rw [← hslots₁]
      exact Unlisted.entry hun (hslots₁.trans hslots) hq ho
    · have hc : isChained (slotCluster p.slot) = true := by
        obtain ⟨-, -, -, ho⟩ := hq
        rw [← hcl, ← he]
        exact ho.chained
      obtain ⟨rfl, rfl⟩ := h.unique hw.geometry hd hx.parent hq (hx.holds hc) (he.trans hcl)
      exact ⟨rfl, Unlisted.gone hun hx.entry⟩
    · rw [hun.slots]
      exact hk.erased _ _ _ (hslots ▸ h.good _ l' hx.parent hl.toChainFrom) hx.entry hx.notDot
  | false =>
    -- no buffer could be had, so the entry had no chain
    obtain ⟨hm, hq⟩ : w.mallocs 0 = false ∧ Quiet w₁ w' := hok
    have hun : Undisturbed w w₁ := by
      rcases hcontents.chain with ⟨hlc, -⟩ | ⟨-, rfl⟩
      · have hc := (hlc.inRange _ (List.mem_of_head? hlc.head)).isChained hw.geometry
        rw [hmem hc] at hm
        cases hm
      · exact ⟨hrel.same, fun c _ => by rw [hrel.next, if_neg (by simp)], fun c _ _ => hrel.bytes c⟩
    exact InOrder.quiet (hrel.ready hw) ⟨owner, (hun.tidy hw h).directory⟩ hq

/-- What `fat32_remove` runs into: it leaves the volume as it is, or it gives up a file. -/
theorem remove_inOrder (hk : Lasting good) (hw : Ready w) (h : InOrder good w) {path : CStr}
    (h0 : 0 ∉ path) (hmem : ∀ x t, fat32LookupPath path w = some (some x, t) →
      x.info.isDirectory = false → isChained x.info.cluster = true → t.mallocs 0 = true) {ok : Bool}
    (hrun : fat32Remove path w = some (ok, w')) : Ready w' ∧ InOrder good w' := by
  have hstay : ∀ {t : World}, Quiet w t → some (false, t) = some (ok, w') →
      Ready w' ∧ InOrder good w' := by
    intro t hq hr
    obtain ⟨-, rfl⟩ := Prod.mk.inj (Option.some.inj hr)
    exact h.quiet hw hq
  obtain ⟨owner, ht⟩ := h
  simp only [fat32Remove, bind_run, get_run, Option.bind_some, ite_run, pure_run] at hrun
  split at hrun
  · exact hstay (.refl w) hrun
  · rename_i hp
    obtain ⟨⟨r, t⟩, hlook, hrest⟩ := Option.bind_eq_some_iff.mp hrun
    obtain ⟨hhit, hq⟩ := lookupPath_hits hw ht hk.orderly h0 w (.refl w) r t hlook
    cases r with
    | none => exact hstay hq hrest
    | some x =>
      simp only [ite_run, pure_run] at hrest
      split at hrest
      · exact hstay hq hrest
      · rename_i hdir
        obtain ⟨p, hx⟩ : ∃ p, Hit w x p := by
          refine (hhit x rfl).resolve_left fun hr => hdir ?_
          rw [hr.2]
          exact isDirectory_rootLookup w
        have hi := (InOrder.quiet hw ⟨owner, ht⟩ hq)
        exact dropEntry_inOrder hk hi.1 hi.2 (hx.quiet hq)
          (hmem x t hlook (by simpa using hdir)) t rfl ok w' hrest

theorem rmdirPath_inOrder (hk : Lasting good) (hw : Ready w) (h : InOrder good w) {path : CStr}
    (h0 : 0 ∉ path) (hmem : ∀ x t u, path ≠ [] → path ≠ [slash] →
      fat32LookupPath path w = some (some x, t) → x.info.isDirectory = true →
      fat32ListDirectory x.info.cluster 1 t = some (some [], u) →
      isChained x.info.cluster = true → u.mallocs 0 = true) {ok : Bool}
    (hrun : fat32RmdirPath path w = some (ok, w')) : Ready w' ∧ InOrder good w' := by
  have hstay : ∀ {t : World}, Quiet w t → some (false, t) = some (ok, w') →
      Ready w' ∧ InOrder good w' := by
    intro t hq hr
    obtain ⟨-, rfl⟩ := Prod.mk.inj (Option.some.inj hr)
    exact h.quiet hw hq
  obtain ⟨owner, ht⟩ := h
  simp only [fat32RmdirPath, bind_run, get_run, Option.bind_some, ite_run, pure_run] at hrun
  split at hrun
  · exact hstay (.refl w) hrun
  · rename_i hempty
    split at hrun
    · exact hstay (.refl w) hrun
    · rename_i hslash
      obtain ⟨⟨r, t⟩, hlook, hrest⟩ := Option.bind_eq_some_iff.mp hrun
      obtain ⟨hhit, hq⟩ := lookupPath_hits hw ht hk.orderly h0 w (.refl w) r t hlook
      cases r with
      | none => exact hstay hq hrest
      | some x =>
        obtain ⟨p, hx⟩ : ∃ p, Hit w x p := (hhit x rfl).resolve_left fun hr =>
          hr.1.elim (fun he => hempty (.inr he)) hslash
        simp only [ite_run, pure_run, bind_run] at hrest
        split at hrest
        · exact hstay hq hrest
        · rename_i hdir
          obtain ⟨⟨files, u⟩, hlist, hrest⟩ := Option.bind_eq_some_iff.mp hrest
          have hdir : x.info.isDirectory = true := by simpa using hdir
          have hat : DirectoryAt w x.info.cluster := hx.directory hdir
          have hqu := listDirectory_run hw ht hat 1 t hq files u hlist
          cases files with
          | none => exact hstay hqu hrest
          | some files =>
            simp only [ite_run, pure_run] at hrest
            split at hrest
            · exact hstay hqu hrest
            · rename_i hnone
              obtain rfl : files = [] := List.eq_nil_of_length_eq_zero (by omega)
              have hi := InOrder.quiet hw ⟨owner, ht⟩ hqu
              exact dropEntry_inOrder hk hi.1 hi.2 (hx.quiet hqu) (hmem x t u
                (fun he => hempty (.inr he)) hslash hlook hdir hlist) u rfl ok w' hrest

end

end ContinuumOS.Fat32.Edits
