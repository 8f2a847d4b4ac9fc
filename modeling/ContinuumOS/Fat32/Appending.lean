import ContinuumOS.Fat32.Dropping

/-! # Where writing to a file writes

`fat32_write` follows the entries of the table from the cluster of the descriptor,
and hangs new clusters behind the last one. It uses an entry without comparing the
cluster with the size of the table, and a cluster that the device takes without
comparing it with the size of the volume. -/
namespace ContinuumOS.Fat32.Appending
open ContinuumOS.Lib.Effect ContinuumOS.Lib.Memory ContinuumOS.Lib.Guards
open ContinuumOS.Fat32.Volume ContinuumOS.Fat32.Device ContinuumOS.Fat32.Allocation
open ContinuumOS.Fat32.Directory ContinuumOS.Fat32.Search ContinuumOS.Fat32.Files
open ContinuumOS.Fat32.Checks ContinuumOS.Fat32.Answers ContinuumOS.Fat32.Confinement
open ContinuumOS.Fat32.Dropping

/-- A cluster was found for the next byte. -/
structure Positioned (w u : World) (f f' : File) : Prop where
  chosen : ∃ v, placed w f = some (v, f'.currentCluster, f'.clusterPosition) ∧ volume u = volume v
  start : 2 ≤ f'.startCluster
  last : isChained f'.currentCluster = false → InRange w f'.lastCluster
  slot : f'.dirEntryCluster = f.dirEntryCluster

section

variable {w u v : World} {f f' : File} {c d k pos m n p : Nat} {src : List UInt8}

/-! ## What a write depends on -/

theorem clusterSize_of_volume (h : volume v = volume w) : clusterSize v = clusterSize w := by
  rw [clusterSize, clusterSize, fs_of_volume h]

theorem leads_of_volume (h : volume v = volume w) (hl : Leads v c k d) : Leads w c k d := by
  have hnext : nextOf v = nextOf w := by
    funext a
    rw [nextOf, nextOf, fs_of_volume h]
  induction hl with
  | here => exact .here
  | next chained accepted linked _ ih =>
    rw [hnext] at linked ih
    exact .next chained (fun hr => accepted ((SameGeometry.refused (sameGeometry_of_volume h)).mpr hr)) linked ih

theorem writable_of_volume (h : volume v = volume w) (hw : Writable w c pos n) :
    Writable v c pos n := by
  have hg := sameGeometry_of_volume h
  intro k d hl hk
  rw [clusterSize_of_volume h] at hk ⊢
  obtain ⟨hland, hentry⟩ := hw k d (leads_of_volume h hl) hk
  exact ⟨(sameGeometry_lands hg).mpr hland, fun hd hn => (hentry hd hn).imp (SameGeometry.refused hg).mpr
    (sameGeometry_hasEntry hg).mpr⟩

theorem placed_of_volume (h : volume u = volume w) (hp : placed u f = some (v, c, pos)) :
    ∃ x, placed w f = some (x, c, pos) ∧ volume v = volume x := by
  have hfree : findFree u = findFree w := by rw [findFree, findFree, fs_of_volume h]
  have hnext : nextOf u = nextOf w := by
    funext a
    rw [nextOf, nextOf, fs_of_volume h]
  have hlink : ∀ {p : Nat} {m : Nat → Nat},
      ((findFree u).map fun a => (linkNew u p a, m a, 0)) = some (v, c, pos) →
      ∃ x, ((findFree w).map fun a => (linkNew w p a, m a, 0)) = some (x, c, pos) ∧
        volume v = volume x := by
    intro p m hm
    rw [hfree] at hm
    obtain ⟨a, ha, hv⟩ := Option.map_eq_some_iff.mp hm
    obtain ⟨rfl, hc⟩ := Prod.mk.inj hv
    refine ⟨linkNew w p a, ?_, linkNew_volume h p a⟩
    rw [ha, ← hc]
    rfl
  unfold placed at hp ⊢
  rw [clusterSize_of_volume h, hnext] at hp
  split at hp
  · rename_i hs
    rw [if_pos hs]
    exact hlink hp
  · rename_i hs
    rw [if_neg hs]
    split at hp
    · rename_i hc
      rw [if_pos hc]
      exact hlink hp
    · rename_i hc
      rw [if_neg hc]
      split at hp
      · rename_i hlt
        obtain ⟨rfl, hat⟩ := Prod.mk.inj (Option.some.inj hp)
        rw [if_pos hlt, hat]
        exact ⟨w, rfl, h⟩
      · rename_i hlt
        rw [if_neg hlt]
        split at hp
        · rename_i hn
          obtain ⟨rfl, hat⟩ := Prod.mk.inj (Option.some.inj hp)
          rw [if_pos hn, hat]
          exact ⟨w, rfl, h⟩
        · rename_i hn
          rw [if_neg hn]
          exact hlink (m := id) hp

theorem extendable_of_volume (h : volume u = volume w) (hw : Extendable w f n) (hm : m ≤ n) :
    Extendable u f m := by
  have hg := sameGeometry_of_volume h
  have hfree : findFree u = findFree w := by rw [findFree, findFree, fs_of_volume h]
  refine ⟨⟨fun hs hc hf hb => ?_, fun hs hc hp => ?_⟩, fun v c pos hp => ?_⟩
  · rw [hfree] at hf
    exact (sameGeometry_hasEntry hg).mpr (hw.behind hs hc hf hb)
  · rw [clusterSize_of_volume h] at hp
    exact (sameGeometry_hasEntry hg).mpr (hw.current hs hc hp)
  · obtain ⟨x, hx, hvol⟩ := placed_of_volume h hp
    intro k d hl hk
    obtain ⟨hland, hentry⟩ := writable_of_volume hvol (hw.clusters x c pos hx) k d hl (by omega)
    exact ⟨hland, fun hd hn => hentry hd (by omega)⟩

theorem linkNew_next_self (hc : c < 2 ^ 28) :
    nextOf (linkNew w p c) c = endCluster ∨ nextOf (linkNew w p c) c = c := by
  by_cases hp : p = c
  · subst hp
    simp only [linkNew]
    split
    · rw [setFat_next, if_pos rfl, or_mod_of_lt _ hc]
      exact .inr rfl
    · rw [setFat_next, if_pos rfl]
      exact .inl rfl
  · rw [linkNew_next hc hp, if_pos rfl]
    exact .inl rfl

theorem linkNew_next_other {a : Nat} (hc : c < 2 ^ 28) (ha : a ≠ c) :
    nextOf (linkNew w p c) a = c ∨ nextOf (linkNew w p c) a = nextOf w a := by
  simp only [linkNew]
  split
  · rw [setFat_next, setFat_next, if_neg ha, or_mod_of_lt _ hc]
    split
    · exact .inl rfl
    · exact .inr rfl
  · rw [setFat_next, if_neg ha]
    exact .inr rfl

theorem leads_self (h : nextOf w c = endCluster ∨ nextOf w c = c) (hl : Leads w c k d) :
    d = c := by
  induction hl with
  | here => rfl
  | next chained accepted linked _ ih =>
    rcases h with he | he
    · rw [he] at linked
      cases linked
    · rw [he] at ih
      exact ih (.inr he)

theorem writable_new (g : Geometry w) (h : InRange w c) : Writable (linkNew w p c) c pos n := by
  have hg : SameGeometry w (linkNew w p c) := sameGeometry_linkNew
  intro k d hl _
  obtain rfl := leads_self (linkNew_next_self (h.lt g)) hl
  exact ⟨(sameGeometry_lands hg).mpr (lands_inRange g h), fun _ _ =>
    .inr ((sameGeometry_hasEntry hg).mpr (hasEntry_inRange g h))⟩

/-! ## Finding a cluster -/

theorem placed_same (g : Geometry w) (h : placed w f = some (v, c, pos)) :
    SameGeometry w v ∧ pos < clusterSize w := by
  have hpos := g.clusterSize_pos
  have hmap : ∀ {p : Nat} {m : Nat → Nat},
      ((findFree w).map fun a => (linkNew w p a, m a, 0)) = some (v, c, pos) →
      SameGeometry w v ∧ pos < clusterSize w := by
    intro p m h
    obtain ⟨a, -, ha⟩ := Option.map_eq_some_iff.mp h
    obtain ⟨rfl, hat⟩ := Prod.mk.inj ha
    obtain ⟨-, rfl⟩ := Prod.mk.inj hat
    exact ⟨sameGeometry_linkNew, hpos⟩
  unfold placed at h
  split at h
  · exact hmap (m := id) h
  · split at h
    · exact hmap h
    · split at h
      · rename_i hlt
        obtain ⟨rfl, hat⟩ := Prod.mk.inj (Option.some.inj h)
        obtain ⟨-, rfl⟩ := Prod.mk.inj hat
        exact ⟨.refl w, hlt⟩
      · split at h
        · obtain ⟨rfl, hat⟩ := Prod.mk.inj (Option.some.inj h)
          obtain ⟨-, rfl⟩ := Prod.mk.inj hat
          exact ⟨.refl w, hpos⟩
        · exact hmap (m := id) h

/-- What is known of the descriptor that comes back. -/
abbrev Found (w : World) (f : File) (r : File × Bool) (t : World) : Prop :=
  SameGeometry w t ∧ (r.2 = true → Positioned w t f r.1)

theorem notFound {P : World → Prop} (h : ∀ t, P t → SameGeometry w t) :
    Safe P (pure (f', false) : Checked (File × Bool)) (Found w f) :=
  .pure fun t ht => ⟨h t ht, fun hb => by cases hb⟩

theorem clusterAtEnd_chained {P : World → Prop} (hc : isChained f.currentCluster = true) :
    Safe P (clusterAtEndChecked f) fun r t => r = (f, true) ∧ P t := by
  rw [clusterAtEndChecked, if_neg (not_not.mpr hc)]
  exact .pure fun _ ht => ⟨rfl, ht⟩

theorem nextCluster_stays {P : World → Prop} (h : ∀ t, P t → f.clusterPosition < clusterSize t) :
    Safe P (nextClusterChecked f) fun r t => r = (f, true) ∧ P t := by
  refine .get_bind fun t ht => .ite (fun hle => ?_) fun _ => .pure fun u hu => ⟨rfl, hu ▸ ht⟩
  exact absurd (h t ht) (Nat.not_lt.mpr hle)

/-- The steps behind one that has found a cluster for a descriptor at its front. -/
theorem nextCluster_found (g : Geometry w) (h0 : f'.clusterPosition = 0) :
    Safe (Found w f (f', true)) (nextClusterChecked f') (Found w f) := by
  refine (nextCluster_stays fun t ht => ?_).post fun r t hr => ?_
  · rw [h0]
    exact (ht.1.geometry g).clusterSize_pos
  · obtain ⟨rfl, ht⟩ := hr
    exact ht

theorem clusterToWrite_first (g : Geometry w) (hs : f.startCluster < 2) :
    Safe (fun t => t = w) (clusterToWriteChecked f) (Found w f) := by
  have hno : isChained f.startCluster = true → HasEntry w f.startCluster := fun h =>
    absurd (isChained_iff.mp h).1 (by omega)
  rw [clusterToWriteChecked, firstClusterChecked, if_pos hs]
  refine .bind (Q := fun r t => Found w f r t ∧ (r.2 = true →
      isChained r.1.currentCluster = true ∧ r.1.clusterPosition = 0)) ?_ fun r => ?_
  · refine .bind (allocateCluster_links g fun _ => hno) fun a => .ite (fun _ => ?_) fun ha => ?_
    · exact .pure fun t ht => ⟨⟨ht.1, fun hb => by cases hb⟩, fun hb => by cases hb⟩
    · refine .pure fun t ht => ?_
      obtain ⟨hfree, hvol⟩ := ht.2 ha
      have hin := (findFree_some hfree).1
      have hc := hin.isChained g
      refine ⟨⟨ht.1, fun _ => ⟨⟨_, ?_, hvol⟩, hin.1, fun hn => ?_, rfl⟩⟩, fun _ => ⟨hc, rfl⟩⟩
      · rw [placed, if_pos hs, hfree]
        rfl
      · rw [hc] at hn
        cases hn
  · obtain ⟨f₁, ok⟩ := r
    refine .ite (fun _ => notFound fun t ht => ht.1.1) fun hok => .intro fun t ht => ?_
    obtain rfl : ok = true := not_not.mp hok
    obtain ⟨hc, h0⟩ := ht.2 rfl
    refine .bind (clusterAtEnd_chained hc) fun r => .intro fun u hu => ?_
    obtain ⟨rfl, rfl⟩ := hu
    exact .ite (fun hn => absurd rfl hn) fun _ =>
      (nextCluster_found g h0).pre fun v hv => hv ▸ ht.1

theorem clusterToWrite_behind (g : Geometry w) (hm : Movable w f) (hs : 2 ≤ f.startCluster)
    (hc : isChained f.currentCluster = false) :
    Safe (fun t => t = w) (clusterToWriteChecked f) (Found w f) := by
  rw [clusterToWriteChecked, firstClusterChecked, if_neg (Nat.not_lt.mpr hs)]
  refine .bind (Q := fun r t => r = (f, true) ∧ t = w) (.pure fun _ ht => ⟨rfl, ht⟩) fun r =>
    .intro fun t ht => ?_
  obtain ⟨rfl, rfl⟩ := ht
  refine .ite (fun hn => absurd rfl hn) fun _ => ?_
  have hn : ¬ isChained f.currentCluster = true := by rw [hc]; exact Bool.false_ne_true
  rw [clusterAtEndChecked, if_pos hn]
  refine .bind (Q := fun r u => Found t f r u ∧ (r.2 = true → r.1.clusterPosition = 0)) ?_
    fun r => ?_
  · refine .bind (allocateCluster_links (p := hungBehind f) g fun hfree hb =>
      hm.behind hs hc hfree hb) fun a => .ite (fun _ => ?_) fun ha => ?_
    · exact .pure fun u hu => ⟨⟨hu.1, fun hb => by cases hb⟩, fun hb => by cases hb⟩
    · refine .pure fun u hu => ?_
      obtain ⟨hfree, hvol⟩ := hu.2 ha
      refine ⟨⟨hu.1, fun _ => ⟨⟨_, ?_, hvol⟩, hs, fun _ => (findFree_some hfree).1, rfl⟩⟩,
        fun _ => rfl⟩
      rw [placed, if_neg (Nat.not_lt.mpr hs), if_pos hn, hfree]
      rfl
  · obtain ⟨f₁, ok⟩ := r
    refine .ite (fun _ => notFound fun u hu => hu.1.1) fun hok => .intro fun u hu => ?_
    obtain rfl : ok = true := not_not.mp hok
    exact (nextCluster_found g (hu.2 rfl)).pre fun v hv => hv ▸ hu.1

theorem clusterToWrite_inside (g : Geometry w) (hm : Movable w f) (hs : 2 ≤ f.startCluster)
    (hc : isChained f.currentCluster = true) :
    Safe (fun t => t = w) (clusterToWriteChecked f) (Found w f) := by
  rw [clusterToWriteChecked, firstClusterChecked, if_neg (Nat.not_lt.mpr hs)]
  refine .bind (Q := fun r t => r = (f, true) ∧ t = w) (.pure fun _ ht => ⟨rfl, ht⟩) fun r =>
    .intro fun t ht => ?_
  obtain ⟨rfl, rfl⟩ := ht
  refine .ite (fun hn => absurd rfl hn) fun _ => .bind (clusterAtEnd_chained hc) fun r =>
    .intro fun u hu => ?_
  obtain ⟨rfl, rfl⟩ := hu
  have hlast : isChained f.currentCluster = false → InRange u f.lastCluster := by
    rw [hc]
    intro h
    cases h
  have hn : ¬ ¬ isChained f.currentCluster = true := not_not.mpr hc
  refine .ite (fun hn => absurd rfl hn) fun _ => .get_bind fun t ht => ?_
  subst ht
  refine .ite (fun hle => ?_) fun hlt => ?_
  · have hentry := hm.current hs hc hle
    refine .check_bind (fun u hu => decide_eq_true (hu ▸ hentry)) (.ite (fun hnext => ?_) fun hnext => ?_)
    · have hnext : isChained (nextOf t f.currentCluster) = true := hnext
      refine .pure fun u hu => ⟨hu ▸ .refl t, fun _ => ⟨⟨t, ?_, by rw [hu]⟩, hs, fun h => ?_, rfl⟩⟩
      · rw [placed, if_neg (Nat.not_lt.mpr hs), if_neg hn, if_neg (Nat.not_lt.mpr hle),
          if_pos hnext]
        rfl
      · have h : isChained (nextOf t f.currentCluster) = false := h
        rw [hnext] at h
        cases h
    · have hnext : ¬ isChained (nextOf t f.currentCluster) = true := hnext
      refine .bind (allocateCluster_links g fun _ _ => hentry) fun a => .ite (fun _ =>
        notFound fun u hu => hu.1) fun ha => .pure fun u hu => ?_
      obtain ⟨hfree, hvol⟩ := hu.2 ha
      have hin := (findFree_some hfree).1
      refine ⟨hu.1, fun _ => ⟨⟨_, ?_, hvol⟩, hs, fun _ => hin, rfl⟩⟩
      rw [placed, if_neg (Nat.not_lt.mpr hs), if_neg hn, if_neg (Nat.not_lt.mpr hle),
        if_neg hnext, hfree]
      rfl
  · refine .pure fun u hu => ⟨hu ▸ .refl t, fun _ => ⟨⟨t, ?_, by rw [hu]⟩, hs, hlast, rfl⟩⟩
    rw [placed, if_neg (Nat.not_lt.mpr hs), if_neg hn, if_pos (Nat.not_le.mp hlt)]

/-- **A cluster to write to** is found without an entry that the table does not have. -/
theorem clusterToWrite_safe (g : Geometry w) (hm : Movable w f) :
    Safe (fun t => t = w) (clusterToWriteChecked f) (Found w f) := by
  by_cases hs : f.startCluster < 2
  · exact clusterToWrite_first g hs
  · cases hc : isChained f.currentCluster with
    | false => exact clusterToWrite_behind g hm (Nat.not_lt.mp hs) hc
    | true => exact clusterToWrite_inside g hm (Nat.not_lt.mp hs) hc

/-! ## Writing into it -/

theorem writeCluster_accepts (c : Nat) (buf : Buf) : Triple (fun t => volume t = volume w)
    (fat32WriteCluster c buf) fun b t => volume t = volume w ∧ (b = true → ¬ Refused w c) := by
  intro t ht b u hr
  refine ⟨(writeCluster_keeps c buf t b u hr).trans ht, fun hb hc => ?_⟩
  have hct := (SameGeometry.refused (sameGeometry_of_volume ht)).mpr hc
  rw [writeCluster_refused hct, hb] at hr
  cases hr

theorem writeChunk_safe (hland : Lands w f.currentCluster) :
    Safe (fun t => t = w) (writeChunkChecked f src) fun r t => volume t = volume w ∧
      ∀ n, r = some n → n = min src.length (clusterSize w - f.clusterPosition) ∧
        ¬ Refused w f.currentCluster := by
  have hwrite : ∀ buf, Safe (fun t => volume t = volume w)
      (fat32WriteClusterChecked f.currentCluster buf) fun b t => volume t = volume w ∧
        (b = true → ¬ Refused w f.currentCluster) := fun buf =>
    ((writeCluster_safe (fun t ht => (sameGeometry_lands (sameGeometry_of_volume ht)).mpr hland)
      buf).and_triple (writeCluster_follows _ buf) (writeCluster_accepts _ buf)).post fun _ _ h => h.2
  refine .get_bind fun t ht => ?_
  subst ht
  have hwritten : ∀ buf : Buf, Safe (fun u => volume u = volume t) (do
      if ← fat32WriteClusterChecked f.currentCluster (store buf f.clusterPosition
          (min src.length (clusterSize t - f.clusterPosition)) fun i => src.getD i 0) then
        return some (min src.length (clusterSize t - f.clusterPosition))
      else return none : Checked (Option Nat)) fun r u => volume u = volume t ∧
      ∀ n, r = some n → n = min src.length (clusterSize t - f.clusterPosition) ∧
        ¬ Refused t f.currentCluster := by
    intro buf
    refine .bind (hwrite _) fun b => .ite (fun hb => .pure fun u hu => ⟨hu.1, fun n hn => ?_⟩)
      fun _ => .pure fun u hu => ⟨hu.1, fun n hn => by cases hn⟩
    exact ⟨(Option.some.inj hn).symm, hu.2 hb⟩
  refine .ite (fun _ => ?_) fun _ => ?_
  · exact .bind_option ((Safe.lift (keeps_volume (keeps_volume_of_calm (readCluster_keeps _)))).pre
      fun u hu => by rw [hu]) (.pure fun u hu => ⟨hu, fun n hn => by cases hn⟩) hwritten
  · exact .bind_option (Q := fun _ u => volume u = volume t) (.pure fun u hu => by rw [hu])
      (.pure fun u hu => ⟨hu, fun n hn => by cases hn⟩) hwritten

theorem Positioned.extendable (g : Geometry w) (hext : Extendable w f n)
    (h : Positioned w u f f') (hg : SameGeometry w v) (hvol : volume v = volume u)
    (hacc : ¬ Refused v f'.currentCluster) (hmore : clusterSize w - f'.clusterPosition < n) :
    Extendable v (advanced f' (clusterSize w - f'.clusterPosition))
      (n - (clusterSize w - f'.clusterPosition)) := by
  obtain ⟨⟨x, hplaced, hx⟩, hstart, hlast, -⟩ := h
  have hw : Writable v f'.currentCluster f'.clusterPosition n :=
    writable_of_volume (hvol.trans hx) (hext.clusters x _ _ hplaced)
  have hlt := (placed_same g hplaced).2
  have hsize : clusterSize v = clusterSize w := by
    rw [clusterSize, clusterSize, hg.fields.2.1, hg.fields.2.2.1]
  have gv := hg.geometry g
  have hfull : f'.clusterPosition + (clusterSize w - f'.clusterPosition) = clusterSize w := by omega
  generalize hm : clusterSize w - f'.clusterPosition = m at *
  refine ⟨⟨fun _ hc _ _ => ?_, fun _ hc _ => ?_⟩, fun x c pos hx => ?_⟩
  · have hin := hlast hc
    have h2 : hungBehind (advanced f' m) = f'.lastCluster := if_pos hin.1
    rw [h2]
    exact hasEntry_inRange gv (hg.inRange.mpr hin)
  · exact ((hw 0 _ .here (by omega)).2 hc (by omega)).resolve_left hacc
  · have hstay : (advanced f' m).currentCluster = f'.currentCluster := rfl
    have hbegun : ¬ (advanced f' m).startCluster < 2 := Nat.not_lt.mpr hstart
    have hpast : ¬ (advanced f' m).clusterPosition < clusterSize v := by
      show ¬ f'.clusterPosition + m < clusterSize v
      omega
    rw [placed, if_neg hbegun, hstay] at hx
    by_cases hc : isChained f'.currentCluster = true
    · rw [if_neg (not_not.mpr hc), if_neg hpast] at hx
      by_cases hnext : isChained (nextOf v f'.currentCluster) = true
      · rw [if_pos hnext] at hx
        obtain ⟨rfl, hc'⟩ := Prod.mk.inj (Option.some.inj hx)
        obtain ⟨rfl, rfl⟩ := Prod.mk.inj hc'
        intro k d hl hk
        rw [hsize] at hk ⊢
        have hshift := hw (k + 1) d (.next hc hacc hnext hl)
        rw [hsize] at hshift
        have hs₁ : (k + 1) * clusterSize w = k * clusterSize w + clusterSize w := Nat.succ_mul _ _
        have hs₂ : (k + 1 + 1) * clusterSize w = (k + 1) * clusterSize w + clusterSize w :=
          Nat.succ_mul _ _
        obtain ⟨hland, hentry⟩ := hshift (by omega)
        exact ⟨hland, fun hd hn => hentry hd (by omega)⟩
      · rw [if_neg hnext] at hx
        obtain ⟨a, hfree, ha⟩ := Option.map_eq_some_iff.mp hx
        obtain ⟨rfl, hc'⟩ := Prod.mk.inj ha
        obtain ⟨rfl, rfl⟩ := Prod.mk.inj hc'
        exact writable_new gv (findFree_some hfree).1
    · have hin := hlast (Bool.eq_false_iff.mpr hc)
      rw [if_pos hc] at hx
      obtain ⟨a, hfree, ha⟩ := Option.map_eq_some_iff.mp hx
      obtain ⟨rfl, hnew⟩ := Prod.mk.inj ha
      obtain ⟨hcluster, rfl⟩ := Prod.mk.inj hnew
      have hchained : isChained (advanced f' m).lastCluster = true := hin.isChained g
      rw [if_pos hchained] at hcluster
      subst hcluster
      exact writable_new gv (findFree_some hfree).1

/-- **The loop keeps to the table and the data**, from a descriptor that what is left
can be written to. -/
theorem writeLoop_safe : ∀ (rounds : Nat) (f : File) (src : List UInt8) (written : Nat) (w : World),
    Geometry w → (src ≠ [] → Extendable w f src.length) →
    Safe (fun t => t = w) (writeLoopChecked rounds f src written) fun r t => SameGeometry w t ∧
      (r.2.2 = true → r.1.dirEntryCluster = f.dirEntryCluster ∧ (src ≠ [] →
        ∃ v c pos, placed w f = some (v, c, pos) ∧ ¬ Refused w c))
  | 0, f, src, written, w, _, _ => by
    refine .ite (fun hs => .pure fun t ht => ⟨ht ▸ .refl w, fun _ => ⟨rfl, fun hne => ?_⟩⟩)
      fun _ => .diverge
    exact absurd hs hne
  | rounds + 1, f, src, written, w, g, hext => by
    refine .ite (fun hs => .pure fun t ht => ⟨ht ▸ .refl w, fun _ => ⟨rfl, fun hne => ?_⟩⟩)
      fun hne => ?_
    · exact absurd hs hne
    have hext := hext hne
    have hlen : 0 < src.length := List.length_pos_of_ne_nil hne
    refine .bind (clusterToWrite_safe g hext.toMovable) fun r => .intro fun t ht => ?_
    obtain ⟨f₁, ok⟩ := r
    refine .ite (fun _ => .pure fun u hu => ⟨hu ▸ ht.1, fun hb => by cases hb⟩) fun hok => ?_
    have hpos := ht.2 (not_not.mp hok)
    obtain ⟨v, hplaced, hv⟩ := hpos.chosen
    have hlt := (placed_same g hplaced).2
    have hsize : clusterSize t = clusterSize w := by
      rw [clusterSize, clusterSize, ht.1.fields.2.1, ht.1.fields.2.2.1]
    have hland : Lands t f₁.currentCluster :=
      (writable_of_volume hv (hext.clusters v _ _ hplaced) 0 _ .here (by omega)).1
    refine .bind (writeChunk_safe hland) fun r => .intro fun u hu => ?_
    have hg : SameGeometry w u := ht.1.trans (sameGeometry_of_volume hu.1)
    cases r with
    | none => exact .pure fun x hx => ⟨hx ▸ hg, fun hb => by cases hb⟩
    | some m =>
      obtain ⟨rfl, hacc⟩ := hu.2 m rfl
      rw [hsize]
      have hacc : ¬ Refused w f₁.currentCluster := fun h => hacc ((SameGeometry.refused ht.1).mpr h)
      refine (writeLoop_safe rounds _ _ _ u (hg.geometry g) fun hmore => ?_).post fun r x hx => ?_
      · have hmore : min src.length (clusterSize w - f₁.clusterPosition) < src.length := by
          refine Nat.lt_of_not_le fun hle => hmore (List.drop_eq_nil_of_le hle)
        have hmin : min src.length (clusterSize w - f₁.clusterPosition) =
            clusterSize w - f₁.clusterPosition := by omega
        rw [hmin, List.length_drop]
        exact hpos.extendable g hext hg hu.1 (fun h => hacc ((SameGeometry.refused hg).mp h))
          (by omega)
      · exact ⟨hg.trans hx.1, fun hb => ⟨(hx.2 hb).1.trans hpos.slot, fun _ => ⟨v, _, _, hplaced, hacc⟩⟩⟩

theorem updateFileEntry_safe (hland : Lands w f.dirEntryCluster) :
    Safe (SameGeometry w) (fat32UpdateFileEntryChecked f) fun _ _ => True := by
  refine .ite (fun _ => .pure fun _ _ => trivial) fun _ => .get_bind fun t ht => ?_
  refine .bind (Q := fun _ => SameGeometry w) (.lift ((keeps_frame (keeps_frame_of_calm
    (kmalloc_keeps _))).pre fun u hu => hu ▸ ht)) fun b => .ite (fun _ => ?_)
      fun _ => .pure fun _ _ => trivial
  refine .bind (.lift (keeps_frame (keeps_frame_of_calm (readCluster_keeps _)))) fun r => ?_
  cases r with
  | none => exact .pure fun _ _ => trivial
  | some buf => exact writeCluster_safe (fun u hu => (sameGeometry_lands hu).mpr hland) _

theorem write_safe (g : Geometry w) {fd : Nat} (h : Sane w (.write fd)) (hlen : src.length < 2 ^ 32) :
    Safe (fun t => volume t = volume w ∧ fileOf t fd = fileOf w fd) (fat32WriteChecked fd src)
      fun _ _ => True := by
  refine .get_bind fun t ht => ?_
  obtain ⟨hvol, hfile⟩ := ht
  have hg := sameGeometry_of_volume hvol
  rw [hfile]
  cases hf : fileOf w fd with
  | none => exact .pure fun _ _ => trivial
  | some f =>
    have happ := h f hf
    refine .ite (fun _ => .pure fun _ _ => trivial) fun hne => ?_
    refine .bind (Q := fun _ u => volume u = volume w) (.lift ((keeps_volume (keeps_volume_of_calm
      (kmalloc_keeps _))).pre fun u hu => hu ▸ hvol)) fun b => .ite (fun _ => .intro fun u hu => ?_)
      fun _ => .pure fun _ _ => trivial
    have hgu := sameGeometry_of_volume hu
    refine .bind (writeLoop_safe src.length f src 0 u (hgu.geometry g) fun _ =>
      extendable_of_volume hu happ.toExtendable (by omega)) fun r => ?_
    obtain ⟨f', written, ok⟩ := r
    refine .bind (Q := fun _ x => SameGeometry u x ∧ (ok = true → Lands w f'.dirEntryCluster)) (.lift
      (.modify fun x hx => ⟨hx.1.trans ⟨rfl, rfl, rfl, rfl⟩, fun hb => ?_⟩)) fun _ => ?_
    · have hne' : src ≠ [] := fun he => hne (List.length_eq_zero_iff.mpr he)
      obtain ⟨hslot, hplaced⟩ := hx.2 hb
      obtain ⟨v, c, pos, hp, hacc⟩ := hplaced hne'
      obtain ⟨x, hx, -⟩ := placed_of_volume hu hp
      have hslot : f'.dirEntryCluster = f.dirEntryCluster := hslot
      rw [hslot]
      exact happ.slot x c pos hx fun hr => hacc ((SameGeometry.refused hgu).mpr hr)
    · refine .ite (fun _ => .pure fun _ _ => trivial) fun hok => .intro fun x hx => ?_
      have hland := (sameGeometry_lands (hgu.trans hx.1)).mpr (hx.2 (not_not.mp hok))
      exact .bind ((updateFileEntry_safe hland).pre fun y hy => hy ▸ .refl x) fun b =>
        .ite (fun _ => .pure fun _ _ => trivial) fun _ => .pure fun _ _ => trivial

/-! ## Where heap and device answer -/

theorem calm_of_volume (hw : Calm w) (h : volume v = volume w) (hf : v.faults = w.faults)
    (hm : v.mallocs = w.mallocs) : Calm v := hw.of_same (sameGeometry_of_volume h) hf hm

theorem writeCluster_accepted (hw : Calm w) (hacc : ¬ Refused w c) (buf : Buf) :
    ∃ u, fat32WriteCluster c buf w = some (true, u) ∧ volume u = volume w ∧ Calm u := by
  obtain ⟨hs, hok⟩ := not_or.mp hacc
  have hok : transferOk w w.fs.deviceId (fat32ClusterToSector w c) w.fs.sectorsPerCluster = true := by
    simpa using hok
  have hrun : ∃ u, fat32WriteCluster c buf w = some (true, u) ∧ u.faults = w.faults ∧
      u.mallocs = w.mallocs := by
    simp only [fat32WriteCluster, bind_run, get_run, Option.bind_some, hw.geometry.mounted, ite_run,
      hs, blockdevWrite, hok, hw.noFaults 0, if_true, if_false, not_true_eq_false, hw.noFaults.tick]
    exact ⟨_, rfl, rfl, rfl⟩
  obtain ⟨u, hu, hf, hm⟩ := hrun
  have hvol := writeCluster_keeps c buf w true u hu
  exact ⟨u, hu, hvol, calm_of_volume hw hvol hf hm⟩

theorem allocateCluster_calm (hw : Calm w) {a : Nat} (hfree : findFree w = some a) (p : Nat) :
    fat32AllocateCluster p w = some (a, allocated w p a) ∧ Calm (allocated w p a) := by
  refine ⟨?_, hw.of_same sameGeometry_allocated allocated_same.2.2 allocated_same.2.1⟩
  rw [allocateCluster_eq hw.geometry hw.noFaults hw.flushable, if_pos (hw.mallocs 0), hfree,
    hw.mallocs.spend]

theorem clusterToWrite_calm (hw : Calm w) (hp : placed w f = some (v, c, pos)) :
    ∃ f' u, clusterToWrite f w = some ((f', true), u) ∧ Calm u := by
  have hne : ∀ {a : Nat}, findFree w = some a → a ≠ 0 := fun h => by
    have := (findFree_some h).1.1
    omega
  have hsize : ∀ {u : World}, Calm u → ¬ 0 ≥ clusterSize u := fun hu =>
    Nat.not_le.mpr hu.geometry.clusterSize_pos
  unfold placed at hp
  split at hp
  · rename_i hs
    obtain ⟨a, hfree, -⟩ := Option.map_eq_some_iff.mp hp
    obtain ⟨hrun, hcalm⟩ := allocateCluster_calm hw hfree f.startCluster
    have hc := (findFree_some hfree).1.isChained hw.geometry
    refine ⟨{ f with startCluster := a, currentCluster := a, lastCluster := a, clusterPosition := 0 },
      _, ?_, hcalm⟩
    simp only [clusterToWrite, firstCluster, hs, if_true, bind_run, hrun, Option.bind_some, ite_run,
      hne hfree, if_false, pure_run, not_true_eq_false, clusterAtEnd, hc, nextCluster, get_run,
      hsize hcalm]
  · rename_i hs
    split at hp
    · rename_i hc
      obtain ⟨a, hfree, -⟩ := Option.map_eq_some_iff.mp hp
      obtain ⟨hrun, hcalm⟩ := allocateCluster_calm hw hfree (hungBehind f)
      rw [hungBehind] at hrun hcalm
      refine ⟨{ f with
        currentCluster := if isChained f.lastCluster then a else f.startCluster
        lastCluster := a
        clusterPosition := 0 }, _, ?_, hcalm⟩
      simp only [clusterToWrite, firstCluster, hs, if_false, bind_run, hrun, Option.bind_some, ite_run,
        hne hfree, pure_run, not_true_eq_false, clusterAtEnd, hc, nextCluster, get_run,
        hsize hcalm, not_false_eq_true, if_true, Bool.false_eq_true]
    · rename_i hc
      split at hp
      · rename_i hlt
        refine ⟨f, w, ?_, hw⟩
        simp only [clusterToWrite, firstCluster, hs, if_false, bind_run, Option.bind_some, ite_run,
          pure_run, not_true_eq_false, clusterAtEnd, hc, nextCluster, get_run,
          Nat.not_le.mpr hlt, ge_iff_le]
      · rename_i hlt
        split at hp
        · rename_i hn
          rw [nextOf] at hn
          refine ⟨{ f with
            currentCluster := w.fs.fatTable f.currentCluster % 2 ^ 28
            clusterPosition := 0 }, w, ?_, hw⟩
          simp only [clusterToWrite, firstCluster, hs, if_false, bind_run, Option.bind_some, ite_run,
            pure_run, not_true_eq_false, clusterAtEnd, hc, nextCluster, get_run,
            Nat.not_lt.mp hlt, ge_iff_le, if_true, hn]
        · rename_i hn
          rw [nextOf] at hn
          obtain ⟨a, hfree, -⟩ := Option.map_eq_some_iff.mp hp
          obtain ⟨hrun, hcalm⟩ := allocateCluster_calm hw hfree f.currentCluster
          refine ⟨{ f with lastCluster := a, currentCluster := a, clusterPosition := 0 }, _, ?_, hcalm⟩
          simp only [clusterToWrite, firstCluster, hs, if_false, bind_run, hrun, Option.bind_some,
            ite_run, hne hfree, pure_run, not_true_eq_false, clusterAtEnd, hc, nextCluster, get_run,
            Nat.not_lt.mp hlt, ge_iff_le, if_true, hn, Bool.false_eq_true]

theorem clusterToWrite_stops (hw : Calm w) (h : ¬ Movable w f) :
    Stops (clusterToWriteChecked f) w := by
  have hbegun : 2 ≤ f.startCluster := by
    by_contra hs
    exact h ⟨fun h2 => absurd h2 hs, fun h2 => absurd h2 hs⟩
  rw [clusterToWriteChecked, firstClusterChecked, if_neg (Nat.not_lt.mpr hbegun)]
  refine Stops.of_eq (a := (f, true)) (t := w) (.ite_neg (not_not.mpr rfl) ?_) rfl
  by_cases hc : isChained f.currentCluster = true
  · rw [clusterAtEndChecked, if_neg (not_not.mpr hc)]
    refine Stops.of_eq (a := (f, true)) (t := w) (.ite_neg (not_not.mpr rfl) (.get_bind ?_)) rfl
    have hno : clusterSize w ≤ f.clusterPosition ∧ ¬ HasEntry w f.currentCluster := by
      by_contra hno
      refine h ⟨fun _ hn => ?_, fun _ _ hle => by_contra fun he => hno ⟨hle, he⟩⟩
      rw [hc] at hn
      cases hn
    have hout : ¬ (Access.entry f.currentCluster).Within w := hno.2
    exact .ite_pos hno.1 (judge_stops hout).bind
  · have hno : findFree w ≠ none ∧ isChained (hungBehind f) = true ∧ ¬ HasEntry w (hungBehind f) := by
      by_contra hno
      refine h ⟨fun _ _ hf hb => by_contra fun he => hno ⟨hf, hb, he⟩, fun _ hn => absurd hn hc⟩
    obtain ⟨a, ha⟩ := Option.ne_none_iff_exists'.mp hno.1
    rw [clusterAtEndChecked, if_pos hc]
    exact (allocateCluster_stops hw.geometry hw.mallocs ha hno.2.1 hno.2.2).bind.bind

theorem writeChunk_calm (hw : Calm w) (hacc : ¬ Refused w f.currentCluster) (src : List UInt8) :
    ∃ u, writeChunk f src w =
      some (some (min src.length (clusterSize w - f.clusterPosition)), u) ∧
      volume u = volume w ∧ Calm u := by
  have hread := readCluster_accepted hw.geometry hw.noFaults hacc
  by_cases hpart : f.clusterPosition ≠ 0 ∨
      min src.length (clusterSize w - f.clusterPosition) < clusterSize w
  · obtain ⟨u, hu, hvol, hcalm⟩ := writeCluster_accepted hw hacc (store (bufAt w f.currentCluster)
      f.clusterPosition (min src.length (clusterSize w - f.clusterPosition)) fun i => src.getD i 0)
    refine ⟨u, ?_, hvol, hcalm⟩
    simp only [writeChunk, bind_run, get_run, Option.bind_some, ite_run, hpart, if_true, hread, hu,
      pure_run]
  · obtain ⟨u, hu, hvol, hcalm⟩ := writeCluster_accepted hw hacc (store (fun _ => 0)
      f.clusterPosition (min src.length (clusterSize w - f.clusterPosition)) fun i => src.getD i 0)
    refine ⟨u, ?_, hvol, hcalm⟩
    simp only [writeChunk, bind_run, get_run, Option.bind_some, ite_run, hpart, if_false, if_true, hu,
      pure_run]

theorem writeChunk_stops (hw : Calm w) (h : ¬ Lands w f.currentCluster) (src : List UInt8) :
    Stops (writeChunkChecked f src) w := by
  have hacc : ¬ Refused w f.currentCluster := fun hr => h (.inl hr)
  refine .get_bind ?_
  by_cases hpart : f.clusterPosition ≠ 0 ∨
      min src.length (clusterSize w - f.clusterPosition) < clusterSize w
  · exact .ite_pos hpart (.lift_bind (readCluster_accepted hw.geometry hw.noFaults hacc)
      (writeCluster_stops hw.geometry h _).bind)
  · exact .ite_neg hpart (.of_eq (writeCluster_stops hw.geometry h _).bind rfl)

/-- The volume and the descriptor after a round that wrote to `c`. -/
structure Filled (w v u : World) (f f' : File) (c pos : Nat) : Prop where
  calm : Calm u
  sameVolume : volume u = volume v
  same : SameGeometry w u
  start : 2 ≤ f'.startCluster
  current : f'.currentCluster = c
  position : f'.clusterPosition = pos
  slot : f'.dirEntryCluster = f.dirEntryCluster

/-- A round stops or writes to a cluster that lands, unless the device refuses it. -/
theorem writeLoop_round (hw : Calm w) (hne : src ≠ []) (hp : placed w f = some (v, c, pos))
    (rounds written : Nat) : Stops (writeLoopChecked (rounds + 1) f src written) w ∨
      Lands v c ∧ (¬ Refused v c → ∃ f' u, Filled w v u f f' c pos ∧
        (Stops (writeLoopChecked rounds (advanced f' (min src.length (clusterSize w - pos)))
          (src.drop (min src.length (clusterSize w - pos)))
          (written + min src.length (clusterSize w - pos))) u →
          Stops (writeLoopChecked (rounds + 1) f src written) w) ∧
        writeLoop (rounds + 1) f src written w =
          writeLoop rounds (advanced f' (min src.length (clusterSize w - pos)))
            (src.drop (min src.length (clusterSize w - pos)))
            (written + min src.length (clusterSize w - pos)) u) := by
  by_cases hm : Movable w f
  · obtain ⟨f', u, hrun, hu⟩ := clusterToWrite_calm hw hp
    rcases (clusterToWrite_follows f).run hrun with hs | hs
    · exact .inl (.ite_neg hne hs.bind)
    obtain ⟨a, ha, hg, hpos⟩ := clusterToWrite_safe hw.geometry hm w rfl _ _ hs
    obtain rfl := Except.ok.inj ha
    have hpos := hpos rfl
    obtain ⟨x, hx, hvol⟩ := hpos.chosen
    obtain ⟨rfl, hat⟩ := Prod.mk.inj (Option.some.inj (hp.symm.trans hx))
    obtain ⟨rfl, rfl⟩ := Prod.mk.inj hat
    have hgu := sameGeometry_of_volume hvol
    have hsize : clusterSize u = clusterSize w := by
      rw [clusterSize, clusterSize, hg.fields.2.1, hg.fields.2.2.1]
    by_cases hland : Lands u f'.currentCluster
    · refine .inr ⟨(sameGeometry_lands hgu).mp hland, fun hacc => ?_⟩
      have hacc : ¬ Refused u f'.currentCluster := fun h => hacc ((SameGeometry.refused hgu).mp h)
      obtain ⟨y, hy, hyvol, hcalm⟩ := writeChunk_calm hu hacc src
      rw [hsize] at hy
      refine ⟨f', y, ⟨hcalm, hyvol.trans hvol, hg.trans (sameGeometry_of_volume hyvol), hpos.start, rfl,
        rfl, hpos.slot⟩, fun hstop => ?_, ?_⟩
      · refine .ite_neg hne (Stops.of_eq (.ite_neg (not_not.mpr rfl) ?_) hs)
        exact Stops.bind_run (a := some _) hstop (writeChunk_follows f' src) hy
      · rw [writeLoop]
        simp only [ite_run, hne, if_false, bind_run, hrun, Option.bind_some, not_true_eq_false, hy]
    · exact .inl (.ite_neg hne (.of_eq (.ite_neg (not_not.mpr rfl)
        (writeChunk_stops hu hland src).bind) hs))
  · exact .inl (.ite_neg hne (clusterToWrite_stops hw hm).bind)

theorem writeLoop_stops_behind (hw : Calm w) (hs : 2 ≤ f.startCluster) (hne : src ≠ [])
    (hc : isChained f.currentCluster = true) (hfull : clusterSize w ≤ f.clusterPosition)
    (hno : ¬ HasEntry w f.currentCluster) (rounds written : Nat) :
    Stops (writeLoopChecked (rounds + 1) f src written) w :=
  .ite_neg hne (clusterToWrite_stops hw fun hm => hno (hm.current hs hc hfull)).bind

/-- **The loop leaves the table or the data** where the clusters that it comes to
lead outside. -/
theorem writeLoop_stops : ∀ (k rounds : Nat) (f : File) (src : List UInt8) (written c pos : Nat)
    (w v : World), Calm w → src.length ≤ rounds → src ≠ [] → placed w f = some (v, c, pos) →
    Leads v c k d → k * clusterSize w < pos + src.length →
    ¬ (Lands v d ∧ (isChained d = true → (k + 1) * clusterSize w < pos + src.length →
      Refused v d ∨ HasEntry v d)) →
    Stops (writeLoopChecked rounds f src written) w := by
  intro k rounds
  induction rounds generalizing k with
  | zero =>
    intro f src written c pos w v _ hr hne
    exact absurd (List.eq_nil_of_length_eq_zero (Nat.le_zero.mp hr)) hne
  | succ rounds ih =>
    intro f src written c pos w v hw hr hne hp hl hk hbad
    have hlt := (placed_same hw.geometry hp).2
    have hlen : 0 < src.length := List.length_pos_of_ne_nil hne
    rcases writeLoop_round hw hne hp rounds written with hstop | ⟨hland, hround⟩
    · exact hstop
    -- the loop goes on behind the cluster it is at
    have hbehind : ¬ Refused v c → clusterSize w < pos + src.length → isChained c = true →
        ¬ HasEntry v c → Stops (writeLoopChecked (rounds + 1) f src written) w := by
      intro hacc hmore hc hno
      obtain ⟨f', u, hu, hs, -⟩ := hround hacc
      refine hs ?_
      have hmin : min src.length (clusterSize w - pos) = clusterSize w - pos := by omega
      obtain ⟨r, rfl⟩ : ∃ r, rounds = r + 1 := ⟨rounds - 1, by omega⟩
      rw [hmin]
      refine writeLoop_stops_behind (f := advanced f' (clusterSize w - pos)) hu.calm hu.start
        (fun he => ?_) ?_ ?_ ?_ r _
      · have := List.drop_eq_nil_iff.mp he
        omega
      · exact hu.current ▸ hc
      · show clusterSize u ≤ f'.clusterPosition + (clusterSize w - pos)
        rw [hu.position, clusterSize, hu.same.fields.2.1, hu.same.fields.2.2.1, ← clusterSize]
        omega
      · show ¬ HasEntry u f'.currentCluster
        rw [hu.current]
        exact fun h => hno ((sameGeometry_hasEntry (sameGeometry_of_volume hu.sameVolume)).mp h)
    cases hl with
    | here =>
      obtain ⟨hc, hbad⟩ := Classical.not_imp.mp (not_and.mp hbad hland)
      obtain ⟨hmore, hbad⟩ := Classical.not_imp.mp hbad
      obtain ⟨hacc, hno⟩ := not_or.mp hbad
      exact hbehind hacc (by omega) hc hno
    | @next _ k _ hc hacc hlinked hrest =>
      have hk₁ : (k + 1) * clusterSize w = k * clusterSize w + clusterSize w := Nat.succ_mul _ _
      have hk₂ : (k + 1 + 1) * clusterSize w = (k + 1) * clusterSize w + clusterSize w :=
        Nat.succ_mul _ _
      by_cases hentry : HasEntry v c
      · obtain ⟨f', u, hu, hs, -⟩ := hround hacc
        refine hs ?_
        have hmin : min src.length (clusterSize w - pos) = clusterSize w - pos := by omega
        have hsize : clusterSize u = clusterSize w := by
          rw [clusterSize, clusterSize, hu.same.fields.2.1, hu.same.fields.2.2.1]
        have hnext : nextOf u c = nextOf v c := by rw [nextOf, nextOf, fs_of_volume hu.sameVolume]
        have hg := sameGeometry_of_volume hu.sameVolume
        rw [hmin]
        have hlen' : (src.drop (clusterSize w - pos)).length = src.length - (clusterSize w - pos) :=
          List.length_drop
        refine ih k (advanced f' (clusterSize w - pos)) _ _ (nextOf u c) 0 u u hu.calm
          (by omega) (fun he => ?_) ?_ (hnext ▸ leads_of_volume hu.sameVolume.symm hrest) ?_
          fun hgood => hbad ⟨?_, fun hd hm => ?_⟩
        · rw [he, List.length_nil] at hlen'
          omega
        · have hstart : ¬ (advanced f' (clusterSize w - pos)).startCluster < 2 :=
            Nat.not_lt.mpr hu.start
          have hcur : (advanced f' (clusterSize w - pos)).currentCluster = c := hu.current
          have hfull : ¬ (advanced f' (clusterSize w - pos)).clusterPosition < clusterSize u := by
            show ¬ f'.clusterPosition + (clusterSize w - pos) < clusterSize u
            rw [hu.position]
            omega
          rw [placed, if_neg hstart, hcur, if_neg (not_not.mpr hc), if_neg hfull, hnext,
            if_pos hlinked]
        · rw [hsize, hlen']
          omega
        · exact (sameGeometry_lands hg).mp hgood.1
        · refine (hgood.2 hd ?_).imp (SameGeometry.refused hg).mp (sameGeometry_hasEntry hg).mp
          rw [hsize, hlen']
          omega
      · exact hbehind hacc (by omega) hc hentry

theorem updateFileEntry_stops (hw : Calm w) (h : ¬ Lands w f.dirEntryCluster) :
    Stops (fat32UpdateFileEntryChecked f) w := by
  have hacc : ¬ Refused w f.dirEntryCluster := fun hr => h (.inl hr)
  have h2 : ¬ f.dirEntryCluster < 2 := fun hlt => hacc (refused_of_lt hlt)
  exact .ite_neg h2 (.get_bind (.lift_bind (hw.mallocs.kmalloc hw.geometry.clusterSize_pos)
    (.ite_pos rfl (.lift_bind (readCluster_accepted hw.geometry hw.noFaults hacc)
      (writeCluster_stops hw.geometry h _)))))

theorem write_stops_loop (hw : Calm w) {fd : Nat} (hf : fileOf w fd = some f) (hne : src ≠ [])
    (h : Stops (writeLoopChecked src.length f src 0) w) : Stops (fat32WriteChecked fd src) w := by
  refine .get_bind ?_
  rw [hf]
  refine .ite_neg (fun hl => hne (List.length_eq_zero_iff.mp hl)) ?_
  exact .lift_bind (hw.mallocs.kmalloc hw.geometry.clusterSize_pos) (.ite_pos rfl h.bind)

theorem write_stops_slot (hw : Calm w) {fd : Nat} (hf : fileOf w fd = some f)
    (hp : placed w f = some (v, c, pos)) (hacc : ¬ Refused w c) (hslot : ¬ Lands w f.dirEntryCluster) :
    Stops (fat32WriteChecked fd [0]) w := by
  have hone : ([0] : List UInt8) ≠ [] := List.cons_ne_nil _ _
  obtain ⟨hg, hlt⟩ := placed_same hw.geometry hp
  rcases writeLoop_round hw hone hp 0 0 with hstop | ⟨-, hround⟩
  · exact write_stops_loop hw hf hone hstop
  obtain ⟨f', u, hu, -, hrun⟩ := hround fun hr => hacc ((SameGeometry.refused hg).mp hr)
  have hmin : min ([0] : List UInt8).length (clusterSize w - pos) = 1 := by
    have : ([0] : List UInt8).length = 1 := rfl
    omega
  rw [hmin] at hrun
  have hrun : writeLoop ([0] : List UInt8).length f [0] 0 w = some ((advanced f' 1, 1, true), u) := hrun
  have hset : setFile fd (advanced f' 1) u = some ((), u.setFile fd (advanced f' 1)) := rfl
  have hg' : SameGeometry w (u.setFile fd (advanced f' 1)) := hu.same.trans ⟨rfl, rfl, rfl, rfl⟩
  have hslot' : ¬ Lands (u.setFile fd (advanced f' 1)) (advanced f' 1).dirEntryCluster := by
    have heq : (advanced f' 1).dirEntryCluster = f.dirEntryCluster := hu.slot
    rw [heq]
    exact fun hl => hslot ((sameGeometry_lands hg').mp hl)
  have hcalm : Calm (u.setFile fd (advanced f' 1)) := calm_of_volume hu.calm rfl rfl rfl
  refine .get_bind ?_
  rw [hf]
  refine .ite_neg Nat.one_ne_zero (.lift_bind
    (hw.mallocs.kmalloc hw.geometry.clusterSize_pos) (.ite_pos rfl ?_))
  refine Stops.bind_run ?_ (writeLoop_follows _ _ _ _) hrun
  exact .lift_bind hset (.ite_neg (not_not.mpr rfl) (updateFileEntry_stops hcalm hslot').bind)

theorem write_stops (hw : Calm w) {fd : Nat} (hf : fileOf w fd = some f) (h : ¬ Appendable w f) :
    ∃ src : List UInt8, src.length < 2 ^ 32 ∧ Stops (fat32WriteChecked fd src) w := by
  have hone : ([0] : List UInt8) ≠ [] := List.cons_ne_nil _ _
  by_cases hm : Movable w f
  · obtain ⟨v, c, pos, hp⟩ | hp : (∃ v c pos, placed w f = some (v, c, pos)) ∨ placed w f = none := by
      cases placed w f with
      | none => exact .inr rfl
      | some r => exact .inl ⟨r.1, r.2.1, r.2.2, rfl⟩
    · by_cases hc : Writable v c pos (2 ^ 32 - 1)
      · have hslot : ¬ Refused w c ∧ ¬ Lands w f.dirEntryCluster := by
          by_contra hno
          refine h ⟨⟨hm, fun x d q hx => ?_⟩, fun x d q hx hacc => ?_⟩
          all_goals
            obtain ⟨rfl, hat⟩ := Prod.mk.inj (Option.some.inj (hp.symm.trans hx))
            obtain ⟨rfl, rfl⟩ := Prod.mk.inj hat
          · exact hc
          · exact by_contra fun hland => hno ⟨hacc, hland⟩
        exact ⟨[0], by decide, write_stops_slot hw hf hp hslot.1 hslot.2⟩
      · obtain ⟨k, hk⟩ := not_forall.mp hc
        obtain ⟨d, hd⟩ := not_forall.mp hk
        obtain ⟨hl, hd⟩ := Classical.not_imp.mp hd
        obtain ⟨hlt, hbad⟩ := Classical.not_imp.mp hd
        obtain ⟨src, hlen⟩ : ∃ src : List UInt8, src.length = 2 ^ 32 - 1 :=
          ⟨List.replicate _ 0, List.length_replicate⟩
        have hne : src ≠ [] := fun he => by
          rw [he, List.length_nil] at hlen
          omega
        have hg := (placed_same hw.geometry hp).1
        have hsize : clusterSize v = clusterSize w := by
          rw [clusterSize, clusterSize, hg.fields.2.1, hg.fields.2.2.1]
        refine ⟨src, by omega, write_stops_loop hw hf hne ?_⟩
        refine writeLoop_stops k src.length f src 0 c pos w v hw le_rfl hne hp hl ?_ ?_
        · rw [hlen, ← hsize]
          exact hlt
        · rw [hlen, ← hsize]
          exact hbad
    · refine absurd ⟨⟨hm, fun v c pos h => ?_⟩, fun v c pos h => ?_⟩ h
      all_goals
        rw [hp] at h
        cases h
  · exact ⟨[0], by decide, write_stops_loop hw hf hone
      (.ite_neg hone (clusterToWrite_stops hw hm).bind)⟩

theorem appendable_of_volume (h : volume v = volume w) (hw : Appendable w f) : Appendable v f := by
  have hg := sameGeometry_of_volume h
  refine ⟨extendable_of_volume h hw.toExtendable le_rfl, fun x c pos hp hacc => ?_⟩
  obtain ⟨y, hy, -⟩ := placed_of_volume h hp
  exact (sameGeometry_lands hg).mpr (hw.slot y c pos hy fun hr => hacc
    ((SameGeometry.refused hg).mpr hr))

theorem write_confined_iff (g : Geometry w) (hf : Flushable w) {fd : Nat} :
    Confined w (.write fd) ↔ Sane w (.write fd) := by
  constructor
  · intro h f hfile
    by_contra hno
    have hcalm : Calm (calm w) :=
      ⟨⟨sameGeometry_calm.geometry g, noFaults_calm, hf⟩, mallocs_calm⟩
    obtain ⟨src, hlen, hstop⟩ := write_stops hcalm (show fileOf (calm w) fd = some f from hfile)
      fun ha => hno (appendable_of_volume (v := w) (w := calm w) rfl ha)
    exact h src hlen (fun _ => true) (fun _ => none) hstop
  · intro h src hlen mallocs faults
    exact (write_safe g h hlen).not_stops ⟨rfl, rfl⟩

end

end ContinuumOS.Fat32.Appending
