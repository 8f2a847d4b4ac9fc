import ContinuumOS.Fat32.Lookup
import ContinuumOS.Fat32.Ownership

/-! # The entries that paths lead to

In an orderly directory a dot entry carries no long name, so it answers to
nothing but `.` and `..`, which a lookup does not search for. A path without a
NUL therefore leads to the root directory or to an entry, other than a dot
entry, of a directory of the volume. -/
namespace ContinuumOS.Fat32.Entries
open ContinuumOS.Lib.Effect ContinuumOS.Libc.String
open ContinuumOS.Fat32.Volume ContinuumOS.Fat32.Allocation
open ContinuumOS.Fat32.Names ContinuumOS.Fat32.Directory ContinuumOS.Fat32.Scan
open ContinuumOS.Fat32.Paths ContinuumOS.Fat32.Lookup ContinuumOS.Fat32.Search
open ContinuumOS.Fat32.Insertion ContinuumOS.Fat32.Ownership

/-! ## Names that compare equal -/

theorem toLower_eq {c d : UInt8} (h : fat32ToLower c = d) (hd : ¬ (0x61 ≤ d ∧ d ≤ 0x7A)) : c = d := by
  rw [fat32ToLower] at h
  split at h
  · rename_i hc
    have h₁ : 0x41 ≤ c.toNat := hc.1
    have h₂ : c.toNat ≤ 0x5A := hc.2
    have hsum : d.toNat = c.toNat + 0x20 := by
      rw [← h, UInt8.toNat_add]
      exact Nat.mod_eq_of_lt (by change c.toNat + 0x20 < 256; omega)
    refine absurd ⟨?_, ?_⟩ hd
    · change 0x61 ≤ d.toNat
      omega
    · change d.toNat ≤ 0x7A
      omega
  · exact h

theorem toLower_eq_zero {c : UInt8} (h : fat32ToLower c = 0) : c = 0 := toLower_eq h (by decide)

theorem toLower_ne_of_sub {a b : UInt8} (h : (a.toNat : Int) - b.toNat = 0) : a = b :=
  UInt8.toNat.inj (by omega)

theorem casecmp_eq_zero : ∀ {a b : CStr}, 0 ∉ a → 0 ∉ b → fat32Casecmp a b = 0 →
    a.map fat32ToLower = b.map fat32ToLower
  | [], [], _, _, _ => rfl
  | [], b :: bs, _, hb, h => by
    have hz : fat32ToLower 0 = fat32ToLower b := toLower_ne_of_sub h
    exact absurd (toLower_eq_zero (hz.symm.trans (by decide))) fun he => hb (by simp [he])
  | a :: as, [], ha, _, h => by
    have hz : fat32ToLower a = fat32ToLower 0 := toLower_ne_of_sub h
    exact absurd (toLower_eq_zero (hz.trans (by decide))) fun he => ha (by simp [he])
  | a :: as, b :: bs, ha, hb, h => by
    rw [fat32Casecmp] at h
    split at h
    · rename_i hne
      exact absurd (toLower_ne_of_sub h) hne
    · rename_i heq
      rw [List.map_cons, List.map_cons, not_not.mp heq,
        casecmp_eq_zero (fun hm => ha (by simp [hm])) (fun hm => hb (by simp [hm])) h]

theorem eq_replicate_dot {n : Nat} {name : CStr} (h0 : 0 ∉ name)
    (h : fat32Casecmp (List.replicate n dot) name = 0) : name = List.replicate n dot := by
  have hlow : fat32ToLower dot = dot := by decide
  have hmap := casecmp_eq_zero (by simp [dot]) h0 h
  rw [List.map_replicate, hlow] at hmap
  obtain ⟨hlen, hall⟩ := List.eq_replicate_iff.mp hmap.symm
  refine List.eq_replicate_iff.mpr ⟨by simpa using hlen, fun c hc => ?_⟩
  exact toLower_eq (hall _ (List.mem_map_of_mem hc)) (by decide)

/-! ## Dot entries have no long name -/

section

variable {good : List Placed → Prop} {ps : List Placed} {r : Report} {w : World} {s : Nat}
  {l : List Nat} {p : Placed} {name : CStr} {dirs : Nat → Prop} {owner : Nat → Nat}

theorem isDot_iff : isDot p = true ↔
    slotKind p.slot = .entry ∧ (slotName p.slot = dotName ∨ slotName p.slot = dotDotName) := by
  simp [isDot]

theorem reportsOf_dot : ∀ {ps : List Placed} {st : Lfn}, Orderly ps → st.expected = 0 →
    ∀ r ∈ reportsOf st ps, isDot r.place = true →
      r.info.filename = fat32ShortNameToString (slotName r.place.slot)
  | [], _, _, _, r, hr, _ => by cases hr
  | p :: ps, st, ho, hst, r, hr, hdot => by
    obtain ⟨hp, ho⟩ := List.pairwise_cons.mp ho
    have hplace : r.place ∈ p :: ps := (mem_reportsOf hr).1
    have hpd : isDot p = true := by
      rcases List.mem_cons.mp hplace with rfl | hm
      · exact hdot
      · exact (hp _ hm).2 hdot
    have hentry := (isDot_iff.mp hpd).1
    have hafter : (lfnAfter st p.slot).expected = 0 := by
      rw [lfnAfter, if_neg (by rw [hentry]; decide)]
      rfl
    rw [reportsOf, if_pos hentry] at hr
    rcases List.mem_cons.mp hr with rfl | hr
    · have hnames : ¬ st.Names p.slot := fun hn => by
        have := hn.1
        omega
      exact if_neg hnames
    · exact reportsOf_dot ho hafter r hr hdot

theorem orderly_takeWhile (h : Orderly ps) (f : Placed → Bool) : Orderly (ps.takeWhile f) :=
  List.Pairwise.sublist (List.takeWhile_prefix f).sublist h

/-- **A dot entry answers to its own name only.** -/
theorem answers_dot (ho : Orderly ps) (hr : r ∈ reports ps) (hdot : isDot r.place = true)
    (h0 : 0 ∉ name) (ha : answersTo r.info name = true) : name = [dot] ∨ name = [dot, dot] := by
  have hlong := reportsOf_dot (orderly_takeWhile ho notEnd) rfl r hr hdot
  obtain ⟨-, -, st, hinfo⟩ := mem_reports hr
  have hshort : r.info.shortName = fat32ShortNameToString (slotName r.place.slot) := by rw [hinfo]; rfl
  rw [answersTo, hlong, hshort, Bool.or_self, beq_iff_eq] at ha
  rcases (isDot_iff.mp hdot).2 with hn | hn
  · rw [hn, show fat32ShortNameToString dotName = List.replicate 1 dot by decide] at ha
    exact .inl (eq_replicate_dot h0 ha)
  · rw [hn, show fat32ShortNameToString dotDotName = List.replicate 2 dot by decide] at ha
    exact .inr (eq_replicate_dot h0 ha)

/-! ## Lookups -/

/-- A lookup gives the entry `p` of a directory. -/
structure Hit (w : World) (x : Paths.Lookup) (p : Placed) : Prop where
  parent : Directory w x.parentDir
  listed : ∃ l, ChainFrom w x.parentDir l ∧ p ∈ dirSlots w l
  entry : slotKind p.slot = .entry
  notDot : isDot p = false
  info : ∃ st, x.info = slotInfo st p.slot
  cluster : x.entryCluster = p.cluster
  index : x.entryIndex = p.index

/-- A directory, or no cluster. -/
def DirectoryAt (w : World) (s : Nat) : Prop := Directory w s ∨ isChained s = false

theorem Hit.info_cluster {x : Paths.Lookup} (h : Hit w x p) : x.info.cluster = slotCluster p.slot := by
  obtain ⟨st, hi⟩ := h.info
  rw [hi]
  rfl

theorem Hit.info_isDirectory {x : Paths.Lookup} (h : Hit w x p) :
    x.info.isDirectory = isDirSlot p.slot := by
  obtain ⟨st, hi⟩ := h.info
  rw [hi]
  rfl

theorem Hit.holds {x : Paths.Lookup} (h : Hit w x p) (hc : isChained (slotCluster p.slot) = true) :
    Holds w x.parentDir p := by
  obtain ⟨l, hl, hp⟩ := h.listed
  exact ⟨l, hl, hp, h.entry, h.notDot, hc⟩

theorem Hit.directory {x : Paths.Lookup} (h : Hit w x p) (hd : x.info.isDirectory = true) :
    DirectoryAt w x.info.cluster := by
  rw [h.info_cluster]
  cases hc : isChained (slotCluster p.slot) with
  | false => exact .inr hc
  | true => exact .inl (.sub h.parent (h.holds hc) (h.info_isDirectory ▸ hd))

theorem Holds.quiet {w' : World} (h : Holds w s p) (hq : Quiet w w') : Holds w' s p := by
  obtain ⟨l, hl, hp, ho⟩ := h
  exact ⟨l, chainFrom_quiet hl hq, (dirSlots_quiet hq l).symm ▸ hp, ho⟩

theorem Directory.quiet {w' : World} (h : Directory w s) (hq : Quiet w w') : Directory w' s := by
  induction h with
  | root => exact hq.fs ▸ .root
  | sub _ holds isDir ih => exact .sub ih (Holds.quiet holds hq) isDir

theorem Hit.quiet {w' : World} {x : Paths.Lookup} (h : Hit w x p) (hq : Quiet w w') : Hit w' x p := by
  obtain ⟨l, hl, hp⟩ := h.listed
  exact ⟨Directory.quiet h.parent hq, ⟨l, chainFrom_quiet hl hq, (dirSlots_quiet hq l).symm ▸ hp⟩,
    h.entry, h.notDot, h.info, h.cluster, h.index⟩

theorem Tidy.clusters (h : Tidy good w dirs owner) (hs : dirs s ∨ isChained s = false) :
    ∃ l, DirClusters w s l := by
  rcases hs with hs | hs
  · obtain ⟨l, hl, -⟩ := h.chain hs
    exact ⟨l, .inl hl.toChainFrom⟩
  · exact ⟨[], .inr ⟨hs, rfl⟩⟩

theorem findEntry_hits (hw : Ready w) (h : Tidy good w (Directory w) owner)
    (hgood : ∀ ps, good ps → Orderly ps) (hs : DirectoryAt w s) (hplain : Plain name) (h0 : 0 ∉ name) :
    Triple (Quiet w) (fat32FindEntryInDirectory s name) fun r t =>
      (∀ f, r = some f → ∃ p, Hit w ⟨f.info, s, f.cluster, f.index⟩ p) ∧ Quiet w t := by
  intro t hq r t' hr
  obtain ⟨l, hl⟩ := Tidy.clusters h hs
  rw [findEntry_run (ready_quiet hw hq) (hl.quiet hq) hplain.ne_nil, dirSlots_quiet hq] at hr
  obtain ⟨rfl, rfl⟩ := Prod.mk.inj (Option.some.inj hr)
  refine ⟨fun f hf => ?_, hq.spend⟩
  split at hf
  · obtain ⟨e, he, hans, rfl⟩ := findIn_some hf
    obtain ⟨hplace, hentry, hinfo⟩ := mem_reports he
    rcases hl with hl | ⟨-, rfl⟩
    · have hdir : Directory w s := hs.resolve_right fun hn => by
        have := (hl.inRange s (List.mem_of_head? hl.head)).isChained hw.geometry
        rw [hn] at this
        cases this
      refine ⟨e.place, hdir, ⟨l, hl, hplace⟩, hentry, Bool.eq_false_iff.mpr fun hdot => ?_, hinfo,
        rfl, rfl⟩
      rcases answers_dot (hgood _ (h.good s l hdir hl)) he hdot h0 hans with he | he
      · exact hplain.ne_dot he
      · exact hplain.ne_dotDot he
    · cases hplace
  · cases hf

theorem lookupLoop_hits (hw : Ready w) (h : Tidy good w (Directory w) owner)
    (hgood : ∀ ps, good ps → Orderly ps) : ∀ (rounds : Nat) (cursor : CStr) (s : Nat)
    (last : Option Paths.Lookup), 0 ∉ cursor → DirectoryAt w s →
    (∀ x, last = some x → ∃ p, Hit w x p) →
    Triple (Quiet w) (lookupLoop rounds cursor s last) fun r t =>
      (∀ x, r = some x → ∃ p, Hit w x p) ∧ Quiet w t
  | 0, _, _, _, _, _, hl => .pure fun t ht => ⟨hl, ht⟩
  | rounds + 1, cursor, s, last, h0, hs, hl => by
    have hnone : Triple (Quiet w) (pure none : Fat (Option Paths.Lookup)) fun r t =>
        (∀ x, r = some x → ∃ p, Hit w x p) ∧ Quiet w t := .pure fun t ht => ⟨by simp, ht⟩
    have hcur : 0 ∉ cursor.dropWhile (· == slash) := fun hm => h0 ((List.dropWhile_suffix _).subset hm)
    have hcomp : 0 ∉ (cursor.dropWhile (· == slash)).takeWhile (· ≠ slash) := fun hm =>
      hcur ((List.takeWhile_prefix _).subset hm)
    have hrest : 0 ∉ ((cursor.dropWhile (· == slash)).dropWhile (· ≠ slash)).tail := fun hm =>
      hcur ((List.dropWhile_suffix _).subset (List.mem_of_mem_tail hm))
    rw [lookupLoop]
    refine .ite (fun _ => .pure fun t ht => ⟨hl, ht⟩) fun hc => .ite (fun _ => hnone) fun _ =>
      .ite (fun _ => lookupLoop_hits hw h hgood rounds _ s last hrest hs hl) fun h₁ =>
      .ite (fun _ => hnone) fun h₂ => ?_
    refine .bind (findEntry_hits hw h hgood hs (plain_component hc h₁ h₂) hcomp) fun r => ?_
    cases r with
    | none => exact hnone.pre fun t ht => ht.2
    | some f =>
      refine .intro fun t ht => ?_
      obtain ⟨p, hp⟩ := ht.1 f rfl
      have hx : ∀ x, some (⟨f.info, s, f.cluster, f.index⟩ : Paths.Lookup) = some x →
          ∃ p, Hit w x p := fun x hx => ⟨p, Option.some.inj hx ▸ hp⟩
      refine .ite (fun _ => .pure fun u hu => ⟨hx, hu ▸ ht.2⟩) fun _ =>
        .ite (fun _ => hnone.pre fun u hu => hu ▸ ht.2) fun hdir => ?_
      exact (lookupLoop_hits hw h hgood rounds _ _ _ hrest (hp.directory (by simpa using hdir))
        hx).pre fun u hu => hu ▸ ht.2

/-- **A path leads to the root directory or to an entry of a directory.** -/
theorem lookupPath_hits (hw : Ready w) (h : Tidy good w (Directory w) owner)
    (hgood : ∀ ps, good ps → Orderly ps) {path : CStr} (h0 : 0 ∉ path) :
    Triple (Quiet w) (fat32LookupPath path) fun r t =>
      (∀ x, r = some x → (path = [] ∨ path = [slash]) ∧ x = rootLookup w ∨ ∃ p, Hit w x p) ∧
        Quiet w t := by
  have hwork : 0 ∉ path.take maxPath := fun hm => h0 (List.mem_of_mem_take hm)
  rw [fat32LookupPath]
  refine .get_bind fun t hq => .ite (fun _ => .pure fun u hu => ⟨by simp, hu ▸ hq⟩) fun _ =>
    .ite (fun hp => .pure fun u hu => ⟨fun x hx => .inl ⟨hp, ?_⟩, hu ▸ hq⟩) fun _ => ?_
  · rw [← Option.some.inj hx, rootLookup, rootLookup, hq.fs]
  · rw [hq.fs]
    exact (lookupLoop_hits hw h hgood _ _ _ none hwork (.inl .root) (by simp)).conseq
      (fun u hu => hu ▸ hq) fun r u hu => ⟨fun x hx => .inr (hu.1 x hx), hu.2⟩

theorem listDirectory_run (hw : Ready w) (h : Tidy good w (Directory w) owner) (hs : DirectoryAt w s)
    (n : Nat) : Triple (Quiet w) (fat32ListDirectory s n) fun _ => Quiet w := by
  obtain ⟨l, hl⟩ := Tidy.clusters h hs
  rw [fat32ListDirectory]
  refine .get_bind fun t hq => .ite (fun _ => .pure fun u hu => hu ▸ hq) fun _ =>
    .bind (Q := fun _ => Quiet w) ?_ fun r => .ite (fun _ => .pure fun u hu => hu)
      fun _ => .pure fun u hu => hu
  intro u hu r u' hr
  obtain rfl := hu.symm
  rw [iterateDirectory_run (ready_quiet hw hq) (hl.quiet hq)] at hr
  obtain ⟨-, rfl⟩ := Prod.mk.inj (Option.some.inj hr)
  exact hq.spend

/-! ## Parents of new entries -/

theorem mem_of_mem_stripSlashes {temp : CStr} {c : UInt8} (h : c ∈ stripSlashes temp) : c ∈ temp := by
  rw [stripSlashes] at h
  split at h
  · exact List.mem_of_mem_take h
  · rw [List.mem_reverse] at h
    exact List.mem_reverse.mp ((List.dropWhile_suffix _).subset h)

theorem splitPath_zero {path parent name : CStr} (h0 : 0 ∉ path)
    (h : fat32SplitPath path = some (parent, name)) : 0 ∉ parent ∧ 0 ∉ name := by
  have hstrip : 0 ∉ stripSlashes (path.take maxPath) := fun hm =>
    h0 (List.mem_of_mem_take (mem_of_mem_stripSlashes hm))
  have hslash : (0 : UInt8) ∉ [slash] := by decide
  rw [fat32SplitPath] at h
  split at h
  · obtain ⟨rfl, rfl⟩ := Prod.mk.inj (Option.some.inj h)
    exact ⟨hslash, hstrip⟩
  · split at h
    · cases h
    · obtain ⟨rfl, rfl⟩ := Prod.mk.inj (Option.some.inj h)
      exact ⟨hslash, fun hm => hstrip (List.mem_of_mem_drop hm)⟩
  · obtain ⟨rfl, rfl⟩ := Prod.mk.inj (Option.some.inj h)
    exact ⟨fun hm => hstrip (List.mem_of_mem_take hm), fun hm => hstrip (List.mem_of_mem_drop hm)⟩

theorem findParent_hits (hw : Ready w) (h : Tidy good w (Directory w) owner)
    (hgood : ∀ ps, good ps → Orderly ps) {path : CStr} (h0 : 0 ∉ path) :
    Triple (Quiet w) (findParent path) fun r t =>
      (∀ d name, r = some (d, name) → DirectoryAt w d ∧ 0 ∉ name) ∧ Quiet w t := by
  have hnone : Triple (Quiet w) (pure none : Fat (Option (Nat × CStr))) fun r t =>
      (∀ d name, r = some (d, name) → DirectoryAt w d ∧ 0 ∉ name) ∧ Quiet w t :=
    .pure fun t ht => ⟨by simp, ht⟩
  rw [findParent]
  refine .bind ((lookupPath_hits hw h hgood h0).post fun _ _ hr => hr.2) fun r =>
    .ite (fun _ => hnone) fun _ => ?_
  cases hsplit : fat32SplitPath path with
  | none => exact hnone
  | some pn =>
    obtain ⟨parent, name⟩ := pn
    obtain ⟨hparent, hname⟩ := splitPath_zero h0 hsplit
    have hparent' : 0 ∉ if parent = [] then [slash] else parent := by
      split
      · decide
      · exact hparent
    refine .ite (fun _ => hnone) fun _ => .bind (lookupPath_hits hw h hgood hparent') fun r => ?_
    cases r with
    | none => exact hnone.pre fun t ht => ht.2
    | some x =>
      refine .ite (fun hdir => .pure fun t ht => ⟨fun d n hdn => ?_, ht.2⟩) fun _ =>
        hnone.pre fun t ht => ht.2
      obtain ⟨rfl, rfl⟩ := Prod.mk.inj (Option.some.inj hdn)
      refine ⟨?_, hname⟩
      rcases ht.1 x rfl with ⟨-, rfl⟩ | ⟨p, hp⟩
      · exact .inl .root
      · exact hp.directory hdir

end

end ContinuumOS.Fat32.Entries
