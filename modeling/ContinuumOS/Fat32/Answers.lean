import ContinuumOS.Lib.Effect
import ContinuumOS.Fat32.Search

/-! # What heap and device answer

Wherever `kmalloc` or a device request fails, the driver gives up. So a function
that comes back with a result has done what it does on the same volume when every
request is answered. -/
namespace ContinuumOS.Fat32.Answers
open ContinuumOS.Lib.Effect ContinuumOS.Lib.Fallible
open ContinuumOS.Libc.String
open ContinuumOS.Fat32.Volume ContinuumOS.Fat32.Device ContinuumOS.Fat32.Names
open ContinuumOS.Fat32.Directory ContinuumOS.Fat32.Paths

/-- The volume with other answers to come. -/
def answering (w : World) (mallocs : Nat → Bool) (faults : Nat → Option Nat) : World :=
  { w with mallocs, faults }

/-- The volume when every request is answered. -/
def calm (w : World) : World := answering w (fun _ => true) fun _ => none

section

variable {w : World}

theorem mallocs_calm : Mallocs (calm w) := fun _ => rfl

theorem noFaults_calm : NoFaults (calm w) := fun _ => rfl

theorem sameGeometry_calm : SameGeometry w (calm w) := ⟨rfl, rfl, rfl, rfl⟩

theorem sameGeometry_of_calm {v : World} (h : calm v = calm w) : SameGeometry w v := by
  have hv : SameGeometry v (calm w) := h ▸ sameGeometry_calm
  exact sameGeometry_calm.trans ⟨by rw [← hv.fs], hv.mounted.symm, hv.present.symm,
    hv.sectorCount.symm⟩

/-! ## Requests -/

theorem kmalloc_falters (n : Nat) : Falters calm (· = false) (kmalloc n) := by
  intro s a t h
  unfold kmalloc at h ⊢
  split at h
  · obtain ⟨rfl, rfl⟩ := Prod.mk.inj (Option.some.inj h)
    exact .inl rfl
  · rename_i hn
    obtain ⟨rfl, rfl⟩ := Prod.mk.inj (Option.some.inj h)
    rw [if_neg hn]
    cases hm : s.mallocs 0 with
    | false => exact .inl rfl
    | true => exact .inr rfl

theorem blockdevRead_falters (dev sector count : Nat) (old : Buf) :
    Falters calm (· = none) (blockdevRead dev sector count old) := by
  intro s a t h
  unfold blockdevRead at h ⊢
  split at h
  · rename_i hok
    have hok' : transferOk (calm s) dev sector count = true := hok
    rw [if_pos hok']
    cases hf : s.faults 0 with
    | some k =>
      rw [hf] at h
      obtain ⟨rfl, rfl⟩ := Prod.mk.inj (Option.some.inj h)
      exact .inl rfl
    | none =>
      rw [hf] at h
      obtain ⟨rfl, rfl⟩ := Prod.mk.inj (Option.some.inj h)
      exact .inr rfl
  · obtain ⟨rfl, rfl⟩ := Prod.mk.inj (Option.some.inj h)
    exact .inl rfl

theorem blockdevWrite_falters (dev sector count : Nat) (buf : Buf) :
    Falters calm (· = false) (blockdevWrite dev sector count buf) := by
  intro s a t h
  unfold blockdevWrite at h ⊢
  split at h
  · rename_i hok
    have hok' : transferOk (calm s) dev sector count = true := hok
    rw [if_pos hok']
    cases hf : s.faults 0 with
    | some k =>
      rw [hf] at h
      obtain ⟨rfl, rfl⟩ := Prod.mk.inj (Option.some.inj h)
      exact .inl rfl
    | none =>
      rw [hf] at h
      obtain ⟨rfl, rfl⟩ := Prod.mk.inj (Option.some.inj h)
      exact .inr rfl
  · obtain ⟨rfl, rfl⟩ := Prod.mk.inj (Option.some.inj h)
    exact .inl rfl

theorem readCluster_falters (c : Nat) : Falters calm (· = none) (fat32ReadCluster c) :=
  .get_bind (fun _ => rfl) fun _ => .ite (fun _ => .pure _) fun _ => .ite (fun _ => .pure _) fun _ =>
    blockdevRead_falters _ _ _ _

theorem writeCluster_falters (c : Nat) (buf : Buf) :
    Falters calm (· = false) (fat32WriteCluster c buf) :=
  .get_bind (fun _ => rfl) fun _ => .ite (fun _ => .pure _) fun _ => .ite (fun _ => .pure _) fun _ =>
    blockdevWrite_falters _ _ _ _

theorem flushCopies_falters : ∀ left copy : Nat, Falters calm (· = false) (flushCopies left copy)
  | 0, _ => .pure _
  | left + 1, copy => .get_bind (fun _ => rfl) fun _ => .bind (blockdevWrite_falters _ _ _ _)
    (fun _ => .ite (fun _ => flushCopies_falters left (copy + 1)) fun _ => .pure _) fun b hb => by
      rw [hb]
      exact .pure fun _ _ => rfl

theorem flushFat_falters : Falters calm (· = false) fat32FlushFat :=
  .get_bind (fun _ => rfl) fun _ => .ite (fun _ => .pure _) fun _ => flushCopies_falters _ _

theorem setFat_calm (w : World) (c v : Nat) : (calm w).setFat c v = calm (w.setFat c v) := rfl

theorem linkNew_calm (w : World) (previous c : Nat) :
    linkNew (calm w) previous c = calm (linkNew w previous c) := by
  unfold linkNew
  rw [setFat_calm]
  generalize w.setFat c endCluster = u
  have hfs : (calm u).fs = u.fs := rfl
  dsimp only
  rw [hfs, setFat_calm, apply_ite calm]

theorem findFree_calm (w : World) : findFree (calm w) = findFree w := rfl

theorem clusterSize_calm (w : World) : clusterSize (calm w) = clusterSize w := rfl

theorem allocateCluster_falters (previous : Nat) :
    Falters calm (· = 0) (fat32AllocateCluster previous) := by
  have hzero : Falters calm (· = 0) (pure 0 : Fat Nat) := .pure 0
  have hflush : ∀ c, Falters calm (· = 0) (do if ← fat32FlushFat then return c else return 0) :=
    fun c => .bind flushFat_falters (fun b => .ite (fun _ => .pure c) fun _ => hzero) fun b hb => by
      rw [hb]
      exact .pure fun _ _ => rfl
  have hundo : ∀ c, Falters calm (· = 0) (do
      Eff.modify fun w => w.setFat c 0
      return 0) := fun c =>
    .bind (@Falters.modify _ calm _ (fun _ => False) fun s => setFat_calm s c 0) (fun _ => hzero)
      fun _ h => h.elim
  refine .get_bind (fun s => by simp only [findFree_calm, clusterSize_calm]) fun w =>
    .bind (kmalloc_falters _) (fun b => .ite (fun _ => ?_) fun _ => hzero) fun b hb => ?_
  · cases findFree w with
    | none => exact hzero
    | some c =>
      refine .bind (@Falters.modify _ calm _ (fun _ => False) fun s => linkNew_calm s previous c)
        (fun _ => ?_) fun _ h => h.elim
      refine .bind (writeCluster_falters c _) (fun b => .ite (fun _ => hflush c) fun _ => hundo c)
        fun b hb => ?_
      rw [hb]
      exact .bind (Q := fun _ _ => True) (.modify fun _ _ => trivial) fun _ => .pure fun _ _ => rfl
  · rw [hb]
    exact .pure fun _ _ => rfl

theorem initDirectory_falters (c parent : Nat) :
    Falters calm (· = false) (fat32InitDirectory c parent) :=
  .get_bind (fun _ => rfl) fun _ => .bind (kmalloc_falters _)
    (fun _ => .ite (fun _ => writeCluster_falters _ _) fun _ => .pure _) fun b hb => by
      rw [hb]
      exact .pure fun _ _ => rfl

/-! ## Searches -/

variable {κ : Type}

/-- A scan that ends with an error is a bad one. -/
abbrev Fails (r : Int × κ) : Prop := r.1 < 0

theorem iterateLoop_falters (callback : Callback κ) : ∀ (rounds cluster : Nat) (st : Lfn)
    (context : κ), Falters calm Fails (iterateLoop callback rounds cluster st context)
  | 0, cluster, st, context => .ite (fun _ => .diverge) fun _ => .pure _
  | rounds + 1, cluster, st, context => by
    refine .ite (fun _ => .pure _) fun _ => .bind (readCluster_falters cluster) (fun r => ?_)
      fun r hr => ?_
    · cases r with
      | none => exact .pure _
      | some buf =>
        refine .get_bind (fun _ => rfl) fun w => ?_
        dsimp only
        cases scanCluster callback buf cluster (entriesPerCluster w) 0 st context with
        | done result context => exact .pure _
        | more st context =>
          exact .ite (fun _ => .pure _) fun _ => iterateLoop_falters callback rounds _ st context
    · rw [hr]
      exact .pure fun _ _ => Int.negSucc_lt_zero 0

theorem iterateDirectory_falters (s : Nat) (callback : Callback κ) (context : κ) :
    Falters calm Fails (fat32IterateDirectory s callback context) :=
  .get_bind (fun _ => rfl) fun _ => .bind (kmalloc_falters _)
    (fun _ => .ite (fun _ => iterateLoop_falters _ _ _ _ _) fun _ => .pure _) fun b hb => by
      rw [hb]
      exact .pure fun _ _ => Int.negSucc_lt_zero 0

theorem shortNameExists_falters (s : Nat) (name : ShortName) :
    Falters calm (· = none) (fat32ShortNameExists s name) :=
  .bind (iterateDirectory_falters _ _ _) (fun _ => .ite (fun _ => .pure _) fun _ => .pure _)
    fun r hr => by
      simp only [hr, if_true]
      exact .pure fun _ _ => rfl

theorem findEntry_falters (s : Nat) (name : CStr) :
    Falters calm (· = none) (fat32FindEntryInDirectory s name) :=
  .get_bind (fun _ => rfl) fun _ => .ite (fun _ => .pure _) fun _ =>
    .bind (iterateDirectory_falters _ _ _) (fun _ => .ite (fun _ => .pure _) fun _ => .pure _)
      fun r hr => by
        simp only [hr, if_true]
        exact .pure fun _ _ => rfl

theorem listDirectory_falters (s maxFiles : Nat) :
    Falters calm (· = none) (fat32ListDirectory s maxFiles) :=
  .get_bind (fun _ => rfl) fun _ => .ite (fun _ => .pure _) fun _ =>
    .bind (iterateDirectory_falters _ _ _) (fun _ => .ite (fun _ => .pure _) fun _ => .pure _)
      fun r hr => by
        simp only [hr, if_true]
        exact .pure fun _ _ => rfl

theorem uniqueLoop_falters (s : Nat) (base ext : CStr) : ∀ left suffix : Nat,
    Falters calm (· = none) (uniqueLoop s base ext left suffix)
  | 0, _ => .pure _
  | left + 1, suffix => by
    refine .ite (fun _ => .pure _) fun _ => .bind (shortNameExists_falters _ _) (fun r => ?_)
      fun r hr => ?_
    · obtain _ | _ | _ := r
      · exact .pure _
      · exact .pure _
      · exact uniqueLoop_falters s base ext left (suffix + 1)
    · rw [hr]
      exact .pure fun _ _ => rfl

theorem prepareShortName_falters (s : Nat) (name : CStr) :
    Falters calm (· = none) (fat32PrepareShortName s name) := by
  rw [fat32PrepareShortName]
  cases fat32BuildShortName name with
  | none =>
    exact .bind_option (uniqueLoop_falters _ _ _ _ _) (.pure _) (fun _ => .pure _)
      (.pure fun _ _ => rfl)
  | some candidate =>
    refine .bind (shortNameExists_falters _ _) (fun r => ?_) fun r hr => ?_
    · obtain _ | _ | _ := r
      · exact .pure _
      · exact .pure _
      · exact .bind_option (uniqueLoop_falters _ _ _ _ _) (.pure _) (fun _ => .pure _)
          (.pure fun _ _ => rfl)
    · rw [hr]
      exact .pure fun _ _ => rfl

theorem lookupLoop_falters : ∀ (rounds : Nat) (cursor : CStr) (s : Nat) (last : Option Lookup),
    Falters calm (· = none) (lookupLoop rounds cursor s last)
  | 0, _, _, _ => .pure _
  | rounds + 1, cursor, s, last => by
    refine .ite (fun _ => .pure _) fun _ => .ite (fun _ => .pure _) fun _ =>
      .ite (fun _ => lookupLoop_falters rounds _ s last) fun _ => .ite (fun _ => .pure _) fun _ =>
      .bind (findEntry_falters _ _) (fun r => ?_) fun r hr => ?_
    · cases r with
      | none => exact .pure _
      | some f =>
        exact .ite (fun _ => .pure _) fun _ => .ite (fun _ => .pure _) fun _ =>
          lookupLoop_falters rounds _ _ _
    · rw [hr]
      exact .pure fun _ _ => rfl

theorem lookupPath_falters (path : CStr) : Falters calm (· = none) (fat32LookupPath path) :=
  .get_bind (fun _ => rfl) fun _ => .ite (fun _ => .pure _) fun _ => .ite (fun _ => .pure _) fun _ =>
    lookupLoop_falters _ _ _ _

/-! ## What only reads -/

theorem kmalloc_keeps (n : Nat) : Keeps calm (kmalloc n) := by
  intro s a t h
  unfold kmalloc at h
  split at h
  all_goals
    obtain ⟨-, rfl⟩ := Prod.mk.inj (Option.some.inj h)
    rfl

theorem readCluster_keeps (c : Nat) : Keeps calm (fat32ReadCluster c) := by
  refine .get_bind fun w => .ite (fun _ => .pure _) fun _ => .ite (fun _ => .pure _) fun _ => ?_
  intro s a t h
  unfold blockdevRead at h
  split at h
  · split at h
    all_goals
      obtain ⟨-, rfl⟩ := Prod.mk.inj (Option.some.inj h)
      rfl
  · obtain ⟨-, rfl⟩ := Prod.mk.inj (Option.some.inj h)
    rfl

theorem iterateLoop_keeps (callback : Callback κ) : ∀ (rounds cluster : Nat) (st : Lfn)
    (context : κ), Keeps calm (iterateLoop callback rounds cluster st context)
  | 0, cluster, st, context => .ite (fun _ => .diverge) fun _ => .pure _
  | rounds + 1, cluster, st, context => by
    refine .ite (fun _ => .pure _) fun _ => .bind (readCluster_keeps cluster) fun r => ?_
    cases r with
    | none => exact .pure _
    | some buf =>
      refine .get_bind fun w => ?_
      dsimp only
      cases scanCluster callback buf cluster (entriesPerCluster w) 0 st context with
      | done result context => exact .pure _
      | more st context =>
        exact .ite (fun _ => .pure _) fun _ => iterateLoop_keeps callback rounds _ st context

theorem iterateDirectory_keeps (s : Nat) (callback : Callback κ) (context : κ) :
    Keeps calm (fat32IterateDirectory s callback context) :=
  .get_bind fun _ => .bind (kmalloc_keeps _) fun _ =>
    .ite (fun _ => iterateLoop_keeps _ _ _ _ _) fun _ => .pure _

theorem shortNameExists_keeps (s : Nat) (name : ShortName) :
    Keeps calm (fat32ShortNameExists s name) :=
  .bind (iterateDirectory_keeps _ _ _) fun _ => .ite (fun _ => .pure _) fun _ => .pure _

theorem findEntry_keeps (s : Nat) (name : CStr) : Keeps calm (fat32FindEntryInDirectory s name) :=
  .get_bind fun _ => .ite (fun _ => .pure _) fun _ => .bind (iterateDirectory_keeps _ _ _)
    fun _ => .ite (fun _ => .pure _) fun _ => .pure _

theorem listDirectory_keeps (s maxFiles : Nat) : Keeps calm (fat32ListDirectory s maxFiles) :=
  .get_bind fun _ => .ite (fun _ => .pure _) fun _ => .bind (iterateDirectory_keeps _ _ _)
    fun _ => .ite (fun _ => .pure _) fun _ => .pure _

theorem uniqueLoop_keeps (s : Nat) (base ext : CStr) : ∀ left suffix : Nat,
    Keeps calm (uniqueLoop s base ext left suffix)
  | 0, _ => .pure _
  | left + 1, suffix => by
    refine .ite (fun _ => .pure _) fun _ => .bind (shortNameExists_keeps _ _) fun r => ?_
    obtain _ | _ | _ := r
    · exact .pure _
    · exact .pure _
    · exact uniqueLoop_keeps s base ext left (suffix + 1)

theorem prepareShortName_keeps (s : Nat) (name : CStr) :
    Keeps calm (fat32PrepareShortName s name) := by
  rw [fat32PrepareShortName]
  cases fat32BuildShortName name with
  | none => exact .bind_option (uniqueLoop_keeps _ _ _ _ _) (.pure _) fun _ => .pure _
  | some candidate =>
    refine .bind (shortNameExists_keeps _ _) fun r => ?_
    obtain _ | _ | _ := r
    · exact .pure _
    · exact .pure _
    · exact .bind_option (uniqueLoop_keeps _ _ _ _ _) (.pure _) fun _ => .pure _

theorem lookupLoop_keeps : ∀ (rounds : Nat) (cursor : CStr) (s : Nat) (last : Option Lookup),
    Keeps calm (lookupLoop rounds cursor s last)
  | 0, _, _, _ => .pure _
  | rounds + 1, cursor, s, last => by
    refine .ite (fun _ => .pure _) fun _ => .ite (fun _ => .pure _) fun _ =>
      .ite (fun _ => lookupLoop_keeps rounds _ s last) fun _ => .ite (fun _ => .pure _) fun _ =>
      .bind (findEntry_keeps _ _) fun r => ?_
    cases r with
    | none => exact .pure _
    | some f =>
      exact .ite (fun _ => .pure _) fun _ => .ite (fun _ => .pure _) fun _ =>
        lookupLoop_keeps rounds _ _ _

theorem lookupPath_keeps (path : CStr) : Keeps calm (fat32LookupPath path) :=
  .get_bind fun _ => .ite (fun _ => .pure _) fun _ => .ite (fun _ => .pure _) fun _ =>
    lookupLoop_keeps _ _ _ _

theorem triple_calm {α : Type} {m : Fat α} {bad : α → Prop} (hf : Falters calm bad m)
    (hk : Keeps calm m) : Triple (fun v => calm v = calm w) m fun a v =>
      calm v = calm w ∧ (¬ bad a → m (calm w) = some (a, calm w)) := by
  intro v hv a t hr
  have ht : calm t = calm w := (hk v a t hr).trans hv
  refine ⟨ht, fun hb => ?_⟩
  have hcalm := (hf v a t hr).resolve_left hb
  rwa [hv, ht] at hcalm

end

end ContinuumOS.Fat32.Answers
