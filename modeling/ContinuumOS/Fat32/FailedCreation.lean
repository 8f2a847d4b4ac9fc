import ContinuumOS.Lib.Effect
import ContinuumOS.Fat32.ShortNames

/-! # A creation that fails

`fat32_create` and `fat32_mkdir_path` may give up after they have extended the
directory, or taken and written a cluster for a new one. The cluster is given back,
and clusters of zeros behind a directory hold no entry. So every directory keeps
its entries, and two volumes whose directories have the same entries answer every
lookup and every listing alike. -/
namespace ContinuumOS.Fat32.FailedCreation
open ContinuumOS.Lib.Effect ContinuumOS.Lib.Lockstep ContinuumOS.Libc.String
open ContinuumOS.Fat32.Volume ContinuumOS.Fat32.Device ContinuumOS.Fat32.Allocation
open ContinuumOS.Fat32.Names ContinuumOS.Fat32.Directory ContinuumOS.Fat32.Scan
open ContinuumOS.Fat32.Paths ContinuumOS.Fat32.Lookup ContinuumOS.Fat32.Search
open ContinuumOS.Fat32.Insertion ContinuumOS.Fat32.Deletion ContinuumOS.Fat32.Ownership
open ContinuumOS.Fat32.Entries ContinuumOS.Fat32.Edits ContinuumOS.Fat32.ShortNames

/-! ## Volumes that answer alike -/

/-- The volume when `m` are the answers of the heap to come. -/
def withHeap (w : World) (m : Nat → Bool) : World := { w with mallocs := m }

/-- `u` is `w` and `u'` is `w'`, with the same answers of the heap to come. -/
def SameHeap (w w' u u' : World) : Prop := ∃ m, u = withHeap w m ∧ u' = withHeap w' m

/-- Every path leads to the same, whatever the heap answers. -/
def SameLookups (w w' : World) : Prop :=
  ∀ path : CStr, 0 ∉ path → ∀ m, ∃ r t t', fat32LookupPath path (withHeap w m) = some (r, t) ∧
    fat32LookupPath path (withHeap w' m) = some (r, t')

/-- The directory at `s` is listed the same, whatever the heap answers. -/
def SameListing (w w' : World) (s : Nat) : Prop :=
  ∀ n m, ∃ r t t', fat32ListDirectory s n (withHeap w m) = some (r, t) ∧
    fat32ListDirectory s n (withHeap w' m) = some (r, t')

def SameListings (w w' : World) : Prop := ∀ s, DirectoryAt w s → SameListing w w' s

/-- Every directory has the same entries at the same places. -/
structure SameEntries (w w' : World) : Prop where
  root : w'.fs.rootCluster = w.fs.rootCluster
  entries : ∀ s, DirectoryAt w s → ∃ l l', DirClusters w s l ∧ DirClusters w' s l' ∧
    reports (dirSlots w' l') = reports (dirSlots w l)

/-! ## Creations -/

/-- `fat32_create` and `fat32_mkdir_path` -/
inductive Creation
  | create
  | mkdir
  deriving DecidableEq, Repr

def Creation.run : Creation → CStr → Fat Bool
  | .create => fat32Create
  | .mkdir => fat32MkdirPath

/-- The chain `l` at `s` was extended to `l'` by clusters that were free and hold
zeros now. The other entries of the table and the other clusters in use are as
they were. -/
structure OnlyGrown (w : World) (s : Nat) (l : List Nat) (w' : World) (l' : List Nat) : Prop where
  chain : UsedChain w' s l'
  same : SameGeometry w w'
  grown : l <+: l'
  fresh : ∀ c ∈ l', c ∉ l → InRange w c ∧ nextOf w c = 0 ∧ clusterBuf w' c = fun _ => 0
  next : ∀ c, c ∉ l' → nextOf w' c = nextOf w c
  bytes : ∀ c, 2 ≤ c → nextOf w c ≠ 0 → clusterBuf w' c = clusterBuf w c

/-- The table is as it was, but for the chain of the directory that `path` was to
go to. -/
def TableKept (path : CStr) (w w' : World) : Prop :=
  (∀ c, nextOf w' c = nextOf w c) ∨ ∃ s name t l l',
    findParent path w = some (some (s, name), t) ∧ UsedChain w s l ∧ OnlyGrown w s l w' l'

section

variable {good : List Placed → Prop} {w w' w₁ w₂ : World} {owner : Nat → Nat} {s k : Nat}
  {l l' : List Nat} {name path : CStr} {b : Buf}

theorem quiet_withHeap (w : World) (m : Nat → Bool) : Quiet w (withHeap w m) := ⟨m, rfl⟩

/-! ## Lookups and listings go by the entries -/

theorem findEntry_lockstep (hw : Ready w) (hw' : Ready w') (h : Tidy good w (Directory w) owner)
    (hgood : ∀ ps, good ps → Orderly ps) (he : SameEntries w w') (hs : DirectoryAt w s)
    (hplain : Plain name) (h0 : 0 ∉ name) :
    Lockstep (SameHeap w w') (fat32FindEntryInDirectory s name) (fat32FindEntryInDirectory s name)
      fun r => ∀ f, r = some f → f.info.isDirectory = true → DirectoryAt w f.info.cluster := by
  rintro u u' ⟨m, rfl, rfl⟩
  obtain ⟨l, l', hl, hl', hreports⟩ := he.entries s hs
  have hq := quiet_withHeap w m
  have hq' := quiet_withHeap w' m
  have hrun := findEntry_run (ready_quiet hw hq) (hl.quiet hq) hplain.ne_nil
  have hrun' := findEntry_run (ready_quiet hw' hq') (hl'.quiet hq') hplain.ne_nil
  rw [dirSlots_quiet hq', hreports] at hrun'
  rw [dirSlots_quiet hq] at hrun
  refine ⟨_, _, _, hrun, hrun', ⟨advance m, rfl, rfl⟩, fun f hf hdir => ?_⟩
  obtain ⟨p, hp⟩ := (findEntry_hits hw h hgood hs hplain h0 _ hq _ _ hrun).1 f hf
  exact hp.directory hdir

theorem lookupLoop_lockstep (hw : Ready w) (hw' : Ready w') (h : Tidy good w (Directory w) owner)
    (hgood : ∀ ps, good ps → Orderly ps) (he : SameEntries w w') : ∀ (rounds : Nat) (cursor : CStr)
    (s : Nat) (last : Option Paths.Lookup), 0 ∉ cursor → DirectoryAt w s →
    Lockstep (SameHeap w w') (lookupLoop rounds cursor s last) (lookupLoop rounds cursor s last)
      fun _ => True
  | 0, _, _, _, _, _ => .pure trivial
  | rounds + 1, cursor, s, last, h0, hs => by
    have hcur : 0 ∉ cursor.dropWhile (· == slash) := fun hm =>
      h0 ((List.dropWhile_suffix _).subset hm)
    have hcomp : 0 ∉ (cursor.dropWhile (· == slash)).takeWhile (· ≠ slash) := fun hm =>
      hcur ((List.takeWhile_prefix _).subset hm)
    have hrest : 0 ∉ ((cursor.dropWhile (· == slash)).dropWhile (· ≠ slash)).tail := fun hm =>
      hcur ((List.dropWhile_suffix _).subset (List.mem_of_mem_tail hm))
    rw [lookupLoop]
    refine .ite Iff.rfl (fun _ => .pure trivial) fun hc => .ite Iff.rfl (fun _ => .pure trivial)
      fun _ => .ite Iff.rfl (fun _ => ?_) fun h₁ => .ite Iff.rfl (fun _ => .pure trivial)
      fun h₂ => ?_
    · exact lookupLoop_lockstep hw hw' h hgood he rounds _ s last hrest hs
    · refine .bind (findEntry_lockstep hw hw' h hgood he hs (plain_component hc h₁ h₂) hcomp)
        fun r hr => ?_
      cases r with
      | none => exact .pure trivial
      | some f =>
        refine .ite Iff.rfl (fun _ => .pure trivial) fun _ => .ite Iff.rfl (fun _ => .pure trivial)
          fun hdir => ?_
        exact lookupLoop_lockstep hw hw' h hgood he rounds _ _ _ hrest
          (hr f rfl (by simpa using hdir))

theorem SameHeap.fs {u u' : World} (h : SameHeap w w' u u') : u.fs = w.fs ∧ u'.fs = w'.fs ∧
    u.mounted = w.mounted ∧ u'.mounted = w'.mounted := by
  obtain ⟨m, rfl, rfl⟩ := h
  exact ⟨rfl, rfl, rfl, rfl⟩

/-- **Every path leads to the same** when every directory has the same entries. -/
theorem SameEntries.lookups (hw : Ready w) (hw' : Ready w') (h : Tidy good w (Directory w) owner)
    (hgood : ∀ ps, good ps → Orderly ps) (he : SameEntries w w') : SameLookups w w' := by
  intro path h0 m
  have hwork : 0 ∉ path.take maxPath := fun hm => h0 (List.mem_of_mem_take hm)
  have hlock : Lockstep (SameHeap w w') (fat32LookupPath path) (fat32LookupPath path)
      fun _ => True := by
    rw [fat32LookupPath]
    refine .get_bind fun u u' hu => ?_
    obtain ⟨hfs, hfs', hm, hm'⟩ := hu.fs
    rw [hm, hm', hw.geometry.mounted, hw'.geometry.mounted]
    refine .ite Iff.rfl (fun _ => .pure trivial) fun _ => .ite Iff.rfl (fun _ => ?_) fun _ => ?_
    · have hroot : rootLookup u' = rootLookup u := by
        rw [rootLookup, rootLookup, hfs, hfs', he.root]
      rw [hroot]
      exact .pure trivial
    · rw [hfs, hfs', he.root]
      exact lookupLoop_lockstep hw hw' h hgood he _ _ _ _ hwork (.inl .root)
  obtain ⟨r, t, t', hr, hr', -, -⟩ := hlock _ _ ⟨m, rfl, rfl⟩
  exact ⟨r, t, t', hr, hr'⟩

/-- **A directory with the same entries is listed the same.** -/
theorem sameListing_of_reports (hw : Ready w) (hw' : Ready w') (hl : DirClusters w s l)
    (hl' : DirClusters w' s l') (hreports : reports (dirSlots w' l') = reports (dirSlots w l)) :
    SameListing w w' s := by
  intro n m
  have hlock : Lockstep (SameHeap w w') (fat32ListDirectory s n) (fat32ListDirectory s n)
      fun _ => True := by
    rw [fat32ListDirectory]
    refine .get_bind fun u u' hu => ?_
    obtain ⟨-, -, hm, hm'⟩ := hu.fs
    rw [hm, hm', hw.geometry.mounted, hw'.geometry.mounted]
    refine .ite Iff.rfl (fun _ => .pure trivial) fun _ => .bind (Q := fun _ => True) ?_ fun r _ =>
      .ite Iff.rfl (fun _ => .pure trivial) fun _ => .pure trivial
    rintro v v' ⟨m, rfl, rfl⟩
    have hq := quiet_withHeap w m
    have hq' := quiet_withHeap w' m
    have hrun : fat32IterateDirectory s (listCallback n) [] (withHeap w m) = _ :=
      iterateDirectory_run (ready_quiet hw hq) (hl.quiet hq) []
    have hrun' : fat32IterateDirectory s (listCallback n) [] (withHeap w' m) = _ :=
      iterateDirectory_run (ready_quiet hw' hq') (hl'.quiet hq') []
    rw [dirSlots_quiet hq', hreports] at hrun'
    rw [dirSlots_quiet hq] at hrun
    exact ⟨_, _, _, hrun, hrun', ⟨advance m, rfl, rfl⟩, trivial⟩
  obtain ⟨r, t, t', hr, hr', -, -⟩ := hlock _ _ ⟨m, rfl, rfl⟩
  exact ⟨r, t, t', hr, hr'⟩

theorem SameEntries.listings (hw : Ready w) (hw' : Ready w') (he : SameEntries w w') :
    SameListings w w' := by
  intro s hs
  obtain ⟨l, l', hl, hl', hreports⟩ := he.entries s hs
  exact sameListing_of_reports hw hw' hl hl' hreports

/-! ## What keeps the entries -/

theorem dirSlots_nil (w : World) : dirSlots w [] = [] := rfl

theorem Undisturbed.sameEntries (h : Tidy good w (Directory w) owner) (hu : Undisturbed w w') :
    SameEntries w w' where
  root := hu.same.fields.2.2.2.2.2.1
  entries s hs := by
    rcases hs with hs | hs
    · obtain ⟨m, hm, -⟩ := h.chain hs
      have hkept := hu.kept hm
      exact ⟨m, m, .inl hm.toChainFrom, .inl hkept.chain.toChainFrom, by rw [hkept.slots]⟩
    · exact ⟨[], [], .inr ⟨hs, rfl⟩, .inr ⟨hs, rfl⟩, by rw [dirSlots_nil, dirSlots_nil]⟩

theorem OnlyGrown.kept {m : List Nat} (hg : OnlyGrown w s l w' l') (hm : UsedChain w k m)
    (hout : ∀ c ∈ m, c ∉ l) : Kept w w' k m := by
  have hout' : ∀ c ∈ m, c ∉ l' := fun c hc hc' => hm.used c hc (hg.fresh c hc' (hout c hc)).2.1
  exact .of_bytes hm hg.same (fun c hc => hg.next c (hout' c hc)) fun c hc =>
    hg.bytes c (hm.inRange c hc).1 (hm.used c hc)

theorem OnlyGrown.sameEntries (hw : Ready w) (h : Tidy good w (Directory w) owner)
    (hs : Directory w s) (hl : UsedChain w s l) (hg : OnlyGrown w s l w' l') :
    SameEntries w w' where
  root := hg.same.fields.2.2.2.2.2.1
  entries d hd := by
    rcases hd with hd | hd
    · by_cases hds : d = s
      · subst hds
        obtain ⟨zeros, hz, hzero⟩ := dirSlots_grown hg.same hg.grown hg.chain.nodup
          (fun c hc => hg.bytes c (hl.inRange c hc).1 (hl.used c hc))
          fun c hc hn => (hg.fresh c hc hn).2.2
        exact ⟨l, l', .inl hl.toChainFrom, .inl hg.chain.toChainFrom, by
          rw [hz, reports_append_zeros hzero]⟩
      · obtain ⟨m, hm, -⟩ := h.chain hd
        have hkept := OnlyGrown.kept hg hm
          (h.apart hw.geometry (.inl hd) (.inl hs) hm.toChainFrom hl.toChainFrom hds)
        exact ⟨m, m, .inl hm.toChainFrom, .inl hkept.chain.toChainFrom, by rw [hkept.slots]⟩
    · exact ⟨[], [], .inr ⟨hd, rfl⟩, .inr ⟨hd, rfl⟩, by rw [dirSlots_nil, dirSlots_nil]⟩

/-! ## What a failure leaves behind -/

theorem Extended.onlyGrown (he : Extended w s l w' l') : OnlyGrown w s l w' l' := by
  refine ⟨he.chain, he.same, he.grown, he.fresh, he.next, fun c h2 hc => he.bytes c h2 fun hm => ?_⟩
  by_contra hout
  exact hc (he.fresh c hm hout).2.1

theorem OnlyGrown.of_taken (ht : Taken w k b w₁) (hl : UsedChain w s l) (he : Extended w₁ s l w₂ l')
    (hr : Released w₂ [k] w') : OnlyGrown w s l w' l' := by
  have hend : nextOf w₁ k = endCluster := by rw [ht.next, if_pos rfl]
  have hkl : k ∉ l := fun hm => hl.used k hm ht.free
  have hkl' : k ∉ l' := fun hm => endCluster_ne_zero (hend.symm.trans (he.fresh k hm hkl).2.1)
  refine ⟨UsedChain.released he.chain hr fun c hc hck => hkl' (List.mem_singleton.mp hck ▸ hc),
    (ht.same.trans he.same).trans hr.same, he.grown, fun c hc hn => ?_, fun c hc => ?_,
    fun c h2 hc => ?_⟩
  · obtain ⟨hin, hz, hb⟩ := he.fresh c hc hn
    have hck : c ≠ k := fun hck => hkl' (hck ▸ hc)
    rw [ht.next, if_neg hck] at hz
    exact ⟨ht.same.inRange.mp hin, hz, (hr.bytes c).trans hb⟩
  · rw [hr.next, he.next c hc, ht.next]
    by_cases hck : c = k
    · rw [if_pos (by simp [hck]), hck, ht.free]
    · rw [if_neg (by simpa using hck), if_neg hck]
  · have hck : c ≠ k := fun hck => hc (hck ▸ ht.free)
    have hc₁ : nextOf w₁ c ≠ 0 := by rwa [ht.next, if_neg hck]
    rw [hr.bytes, (Extended.onlyGrown he).bytes c h2 hc₁]
    exact ht.bytes c h2 hck

theorem Taken.table_released (ht : Taken w k b w₁) (hr : Released w₁ [k] w') (c : Nat) :
    nextOf w' c = nextOf w c := by
  rw [hr.next, ht.next]
  by_cases hck : c = k
  · rw [if_pos (by simp [hck]), hck, ht.free]
  · rw [if_neg (by simpa using hck), if_neg hck]

/-- After a failure device and driver are ready, every directory has its entries,
and no chain but the directory's has changed. -/
structure Spared (path : CStr) (w w' : World) : Prop where
  ready : Ready w'
  entries : SameEntries w w'
  table : TableKept path w w'

theorem Spared.quiet (hw : Ready w) (h : Tidy good w (Directory w) owner) (hq : Quiet w w') :
    Spared path w w' := by
  refine ⟨ready_quiet hw hq, Undisturbed.sameEntries h (.of_quiet hq), .inl fun c => ?_⟩
  obtain ⟨m, rfl⟩ := hq
  rfl

theorem Spared.returned (h : Tidy good w (Directory w) owner) (ht : Taken w k b w₁)
    (hr : Released w₁ [k] w') (hw : Ready w) : Spared path w w' :=
  ⟨hr.ready (ht.ready hw), Undisturbed.sameEntries h (Taken.released ht hr),
    .inl (Taken.table_released ht hr)⟩

theorem Spared.grown (hw : Ready w) (hw' : Ready w') (h : Tidy good w (Directory w) owner)
    (hs : Directory w s) (hl : UsedChain w s l) {t : World}
    (hfind : findParent path w = some (some (s, name), t)) (hg : OnlyGrown w s l w' l') :
    Spared path w w' :=
  ⟨hw', OnlyGrown.sameEntries hw h hs hl hg, .inr ⟨s, name, t, l, l', hfind, hl, hg⟩⟩

theorem create_spares (hw : Ready w) (h : Tidy good w (Directory w) owner)
    (hgood : ∀ ps, good ps → Orderly ps) (h0 : 0 ∉ path)
    (hrun : fat32Create path w = some (false, w')) : Spared path w w' := by
  have hstay : ∀ {t}, Quiet w t → some (false, t) = some (false, w') → Spared path w w' := by
    intro t hq hr
    obtain ⟨-, rfl⟩ := Prod.mk.inj (Option.some.inj hr)
    exact .quiet hw h hq
  simp only [fat32Create, bind_run, get_run, Option.bind_some, ite_run, pure_run] at hrun
  split at hrun
  · exact hstay (.refl w) hrun
  · split at hrun
    · exact hstay (.refl w) hrun
    · obtain ⟨⟨r, t⟩, hfind, hrest⟩ := Option.bind_eq_some_iff.mp hrun
      obtain ⟨hparent, hq⟩ := findParent_hits hw h hgood h0 w (.refl w) r t hfind
      cases r with
      | none => exact hstay hq hrest
      | some found =>
        obtain ⟨d, name⟩ := found
        rcases (hparent d name rfl).1 with hd | hd
        · obtain ⟨l, hl, -⟩ := h.chain hd
          obtain ⟨l', he⟩ := addEntry_adds hw hl name attrArchive 0 t hq false w' hrest
          exact .grown hw (he.ready hw) h hd hl hfind (Extended.onlyGrown he)
        · exact .quiet hw h (addEntry_unchained hw hd name attrArchive 0 t hq false w' hrest).2

/-- The entry of a new directory cannot be added, and the directory is given back. -/
theorem addEntry_spares {x y t : World} (hw : Ready w) (h : Tidy good w (Directory w) owner)
    (hs : DirectoryAt w s) (hfind : findParent path w = some (some (s, name), t))
    (ht : Taken w k (emptyDirectory k s) x)
    (hrun : addEntry s name attrDirectory k x = some (false, y))
    (hfree : fat32FreeClusterChain k y = some ((), w')) : Spared path w w' := by
  have hx := ht.ready hw
  rcases hs with hs | hs
  · obtain ⟨l, hl, -⟩ := h.chain hs
    have hl₁ := (ht.undisturbed.kept hl).chain
    obtain ⟨l', he⟩ := addEntry_adds hx hl₁ name attrDirectory k x (.refl x) false y hrun
    have hout : ∀ c ∈ [k], c ∉ l := fun c hc hm =>
      hl.used c hm (List.mem_singleton.mp hc ▸ ht.free)
    have hk := (Extended.kept he ht.chain hout).chain
    have hr := freeChain_releases (he.ready hx) (.inl hk.toChainFrom) y rfl () w' hfree
    exact .grown hw (hr.ready (he.ready hx)) h hs hl hfind (.of_taken ht hl he hr)
  · obtain ⟨-, hq⟩ := addEntry_unchained hx hs name attrDirectory k x (.refl x) false y hrun
    have hty := Taken.quiet ht hq
    exact .returned h hty
      (freeChain_releases (hty.ready hw) (.inl hty.chain.toChainFrom) y rfl () w' hfree) hw

theorem mkdirPath_spares (hw : Ready w) (h : Tidy good w (Directory w) owner)
    (hgood : ∀ ps, good ps → Orderly ps) (h0 : 0 ∉ path)
    (hrun : fat32MkdirPath path w = some (false, w')) : Spared path w w' := by
  have hstay : ∀ {t}, Quiet w t → some (false, t) = some (false, w') → Spared path w w' := by
    intro t hq hr
    obtain ⟨-, rfl⟩ := Prod.mk.inj (Option.some.inj hr)
    exact .quiet hw h hq
  simp only [fat32MkdirPath, bind_run, get_run, Option.bind_some, ite_run, pure_run] at hrun
  split at hrun
  · exact hstay (.refl w) hrun
  split at hrun
  · exact hstay (.refl w) hrun
  split at hrun
  · exact hstay (.refl w) hrun
  obtain ⟨⟨r, t⟩, hfind, hrest⟩ := Option.bind_eq_some_iff.mp hrun
  obtain ⟨hparent, hq⟩ := findParent_hits hw h hgood h0 w (.refl w) r t hfind
  cases r with
  | none => exact hstay hq hrest
  | some found =>
    obtain ⟨d, name⟩ := found
    obtain ⟨k, v, halloc, hrest⟩ := bind_eq_some hrest
    have hv := allocate_takes hw t hq k v halloc
    simp only [ite_run, pure_run] at hrest
    split at hrest
    · rename_i hz
      exact hstay (hv.resolve_right fun h => h.1 hz).2 hrest
    · rename_i hz
      have hv := (hv.resolve_left fun h => hz h.1).2
      obtain ⟨ok, x, hinit, hrest⟩ := bind_eq_some hrest
      have hx := initDirectory_inits hw d v hv ok x hinit
      cases ok with
      | false =>
        obtain ⟨_, y, hfree, hrest⟩ := bind_eq_some hrest
        obtain ⟨-, rfl⟩ := Prod.mk.inj (Option.some.inj hrest)
        exact .returned h hx
          (freeChain_releases (hx.ready hw) (.inl hx.chain.toChainFrom) x rfl () y hfree) hw
      | true =>
        obtain ⟨ok, y, hadd, hrest⟩ := bind_eq_some hrest
        cases ok with
        | true => cases hrest
        | false =>
          obtain ⟨_, z, hfree, hrest⟩ := bind_eq_some hrest
          obtain ⟨-, rfl⟩ := Prod.mk.inj (Option.some.inj hrest)
          exact addEntry_spares hw h (hparent d name rfl).1 hfind hx hadd hfree

end

/-! ## A volume that fills up -/

/-- Clusters 4 and 5 are free, and all others from 6 on are in use. -/
def crowdedVolume : World :=
  let w := fullVolume fun _ => true
  w.setTable fun c => if c < 6 then w.fs.fatTable c else endCluster

theorem ready_crowdedVolume : Ready crowdedVolume :=
  Ready.of_same (w := fullVolume fun _ => true) ready_fullVolume ⟨rfl, rfl, rfl, rfl⟩ rfl

theorem wellFormed_crowdedVolume : WellFormed crowdedVolume := by
  obtain ⟨owner, h⟩ : WellFormed (fullVolume fun _ => true) := wellFormed_fullVolume
  have hu : Undisturbed (fullVolume fun _ => true) crowdedVolume := by
    refine ⟨⟨rfl, rfl, rfl, rfl⟩, fun c hc => ?_, fun c _ _ => rfl⟩
    by_cases h6 : c < 6
    · exact congrArg (· % 2 ^ 28) (if_pos h6)
    · -- the clusters from 6 on were free
      have hnext : nextOf (fullVolume fun _ => true) c = if c = 3 then endCluster else
          if c = 2 then endCluster else 0 := by
        change nextOf (((rootVolume fullSlots).setFat 2 endCluster).setFat 3 endCluster) c = _
        rw [setFat_next, setFat_next]
        rfl
      rw [hnext, if_neg (by omega), if_neg (by omega)] at hc
      exact absurd rfl hc
  exact ⟨owner, (hu.tidy ready_fullVolume h).directory⟩

/-- A name of 208 characters, which takes 17 slots. -/
def longPath : CStr := slash :: List.replicate 208 0x48

end ContinuumOS.Fat32.FailedCreation
