import ContinuumOS.Vfs.Runs
import ContinuumOS.Lib.Slots

/-! # Handles of a file system that is gone

`vfs_unmount` closes the entries of the table, but a caller's structure keeps
its handle and the address of the mount slot. It is refused as long as the slot
is free, since a free slot has no operations. The next mount into the slot
brings operations back, and with them the handle. -/
namespace ContinuumOS.Vfs.Stale
open ContinuumOS.Lib.Effect ContinuumOS.Lib.Runs ContinuumOS.Lib.Slots
open ContinuumOS.Ramfs.Runs
open ContinuumOS.Vfs.Path ContinuumOS.Vfs.Adapters ContinuumOS.Vfs.Files ContinuumOS.Vfs.Calls
open ContinuumOS.Vfs.Runs

/-- The machine, with a record that no call reads: the numbers of the handles whose
mount has been unmounted since they were opened. -/
structure History where
  sys : Sys
  stale : List Nat

/-- The handles whose mount a step from `s` to `t` has unmounted. -/
def lost (s t : Sys) : List Nat :=
  (List.range s.handles.length).filter fun n =>
    (s.handles[n]?).any fun f => f.inUse && f.mount.any fun i =>
      mountedIn s.kernel.vfs i && !mountedIn t.kernel.vfs i

def stepHistory (fuel : Nat) (h : History) (act : Act) : Option History :=
  (step fuel h.sys act).map fun t => ⟨t, h.stale ++ lost h.sys t⟩

/-- No call on a stale handle reaches a file system. -/
def StaleInert (h : History) : Prop :=
  ∀ n ∈ h.stale, ∀ f, h.sys.handles[n]? = some f → reached h.sys.kernel.vfs f = none

/-- A mount that goes through does not take a slot that a stale handle, not closed
yet, is for. -/
def Unclaimed (h : History) (act : Act) : Prop :=
  ∀ i, fills h.sys.kernel act = some i → ∀ n ∈ h.stale, ∀ f, h.sys.handles[n]? = some f →
    f.inUse = true → f.mount ≠ some i

/-! ## Handles that are refused -/

variable {fuel i : Nat} {h h' : History} {act : Act} {f : VfsFile} {v : VfsTables} {s t : Sys}

theorem refused_of_not_reached {k : Kernel} (h : reached k.vfs f = none) :
    (∀ size, vfsRead f size k = some ((none, f), k)) ∧
      (∀ g src, vfsWrite g f src k = some ((none, f), k)) ∧
      ∀ position, vfsSeek f position k = some ((.error, f), k) := by
  refine ⟨fun size => ?_, fun g src => ?_, fun position => ?_⟩
  · rw [vfsRead, bind_run, get_run, Option.bind_some, h]
    rfl
  · rw [vfsWrite, bind_run, get_run, Option.bind_some, h]
    rfl
  · rw [vfsSeek, bind_run, get_run, Option.bind_some, h]
    rfl

/-! ## The invariant -/

/-- Free slots have no operations, and stale handles reach nothing. -/
structure Inv (h : History) : Prop where
  free : ∀ i, mountedIn h.sys.kernel.vfs i = false → h.sys.kernel.vfs.opsAt i = none
  known : ∀ n ∈ h.stale, n < h.sys.handles.length
  inert : StaleInert h

theorem inv_start (hs : Booted s) : Inv ⟨s, []⟩ := by
  refine ⟨fun i _ => ?_, nofun, nofun⟩
  rw [hs.vfs, VfsTables.opsAt]
  cases hm : (vfsInit.mounts)[i]? with
  | none => rfl
  | some m => rw [(List.mem_replicate.mp (List.mem_of_getElem? hm)).2]; rfl

theorem mem_lost {n : Nat} (hn : n ∈ lost s t) : ∃ f i, s.handles[n]? = some f ∧
    f.mount = some i ∧ mountedIn s.kernel.vfs i = true ∧ mountedIn t.kernel.vfs i = false := by
  obtain ⟨-, hany⟩ := List.mem_filter.mp hn
  obtain ⟨f, hf, hgone⟩ := (Option.any_eq_true _ _).mp hany
  rw [Bool.and_eq_true] at hgone
  obtain ⟨i, hi, hboth⟩ := (Option.any_eq_true _ _).mp hgone.2
  rw [Bool.and_eq_true, Bool.not_eq_true'] at hboth
  exact ⟨f, i, hf, hi, hboth⟩

theorem lost_eq_nil (h : ∀ i, mountedIn s.kernel.vfs i = true → mountedIn t.kernel.vfs i = true) :
    lost s t = [] := by
  refine List.eq_nil_iff_forall_not_mem.mpr fun n hn => ?_
  obtain ⟨f, i, -, -, hs, ht⟩ := mem_lost hn
  rw [h i hs] at ht
  cases ht

/-- What is left to show of a step: free slots are still without operations, the
stale handles from before reach nothing, and new ones have not been changed. -/
theorem Inv.next (hi : Inv h)
    (hfree : ∀ i, mountedIn t.kernel.vfs i = false → t.kernel.vfs.opsAt i = none)
    (hlength : h.sys.handles.length ≤ t.handles.length) (hold : StaleInert ⟨t, h.stale⟩)
    (hnew : lost h.sys t = [] ∨ t.handles = h.sys.handles) :
    Inv ⟨t, h.stale ++ lost h.sys t⟩ := by
  refine ⟨hfree, fun n hn => ?_, fun n hn f hf => ?_⟩
  · obtain hn | hn := List.mem_append.mp hn
    · exact (hi.known n hn).trans_le hlength
    · exact (List.mem_range.mp (List.mem_filter.mp hn).1).trans_le hlength
  · obtain hn | hn := List.mem_append.mp hn
    · exact hold n hn f hf
    · obtain hnil | hsame := hnew
      · rw [hnil] at hn
        cases hn
      · obtain ⟨g, i, hg, hmount, -, hgone⟩ := mem_lost hn
        change t.handles[n]? = some f at hf
        rw [hsame, hg] at hf
        obtain rfl := Option.some.inj hf
        rw [reached, hmount, Option.bind_some, hfree i hgone, ite_self]

theorem Inv.mounts (hi : Inv h) (hmounts : t.kernel.vfs.mounts = h.sys.kernel.vfs.mounts)
    (hlength : h.sys.handles.length ≤ t.handles.length) (hold : StaleInert ⟨t, h.stale⟩) :
    Inv ⟨t, h.stale ++ lost h.sys t⟩ := by
  have hin : ∀ i, mountedIn t.kernel.vfs i = mountedIn h.sys.kernel.vfs i := fun i => by
    rw [mountedIn, mountedIn, hmounts]
  refine hi.next (fun i hfree => ?_) hlength hold (.inl (lost_eq_nil fun i hm => (hin i).trans hm))
  rw [VfsTables.opsAt, hmounts]
  exact hi.free i ((hin i).symm.trans hfree)

theorem opsAt_modify (fs : List VfsFile) (i j : Nat) :
    ({ v with
      openFiles := fs
      mounts := v.mounts.modify i fun m => { m with mounted := false, ops := none } } :
        VfsTables).opsAt j = if i = j then none else v.opsAt j := by
  rw [VfsTables.opsAt, List.getElem?_modify]
  by_cases hij : i = j
  · simp only [if_pos hij]
    cases v.mounts[j]? with
    | none => rfl
    | some m => rfl
  · simp only [if_neg hij]
    rw [VfsTables.opsAt]
    cases v.mounts[j]? with
    | none => rfl
    | some m => rfl

theorem mountedIn_modify (fs : List VfsFile) {i j : Nat} (hij : i ≠ j) :
    mountedIn { v with
      openFiles := fs
      mounts := v.mounts.modify i fun m => { m with mounted := false, ops := none } } j =
        mountedIn v j := by
  rw [mountedIn, List.getElem?_modify, mountedIn]
  simp only [if_neg hij]
  cases v.mounts[j]? with
  | none => rfl
  | some m => rfl

theorem Inv.filled (hi : Inv h) {i : Nat} {m : MountSlot} (hact : Unclaimed h act)
    (slot : fills h.sys.kernel act = some i) (mounted : m.mounted = true)
    (vfs : t.kernel.vfs = { h.sys.kernel.vfs with mounts := h.sys.kernel.vfs.mounts.set i m })
    (handles : t.handles = h.sys.handles) : Inv ⟨t, h.stale ++ lost h.sys t⟩ := by
  have hslots : ∀ j, t.kernel.vfs.mounts[j]? =
      if i = j then some m else h.sys.kernel.vfs.mounts[j]? := fun j => by
    rw [vfs]
    exact getElem?_mounts_set (fills_free slot) j
  have hrest : ∀ j, i ≠ j → mountedIn t.kernel.vfs j = mountedIn h.sys.kernel.vfs j ∧
      t.kernel.vfs.opsAt j = h.sys.kernel.vfs.opsAt j := fun j hij => by
    rw [mountedIn, VfsTables.opsAt, hslots, if_neg hij]
    exact ⟨rfl, rfl⟩
  have hmounted : mountedIn t.kernel.vfs i = true := by
    rw [mountedIn, hslots, if_pos rfl]
    exact mounted
  refine hi.next (fun j hfree => ?_) (by rw [handles]) (fun n hn f hf => ?_)
    (.inl (lost_eq_nil fun j hj => ?_))
  · by_cases hij : i = j
    · rw [← hij, hmounted] at hfree
      cases hfree
    · rw [(hrest j hij).2]
      exact hi.free j ((hrest j hij).1.symm.trans hfree)
  · -- the slot is not one that a stale handle is for
    have hf : h.sys.handles[n]? = some f := handles ▸ hf
    refine reached_mono (fun j ops hused hmount hat => ?_) (hi.inert n hn f hf)
    have hij : i ≠ j := fun hij => hact i slot n hn f hf hused (hij ▸ hmount)
    rwa [(hrest j hij).2] at hat
  · by_cases hij : i = j
    · rw [← hij, hmounted]
    · rw [(hrest j hij).1, hj]

theorem Inv.emptied (hi : Inv h) {i : Nat} {fs : List VfsFile}
    (vfs : t.kernel.vfs = { h.sys.kernel.vfs with
      openFiles := fs
      mounts := h.sys.kernel.vfs.mounts.modify i fun m => { m with mounted := false, ops := none } })
    (handles : t.handles = h.sys.handles) : Inv ⟨t, h.stale ++ lost h.sys t⟩ := by
  refine hi.next (fun j hfree => ?_) (by rw [handles]) (fun n hn f hf => ?_) (.inr handles)
  · rw [vfs, opsAt_modify]
    split
    · rfl
    · rename_i hij
      rw [vfs, mountedIn_modify fs hij] at hfree
      exact hi.free j hfree
  · refine reached_mono (fun j ops _ _ hat => ?_) (hi.inert n hn f (handles ▸ hf))
    rw [vfs, opsAt_modify] at hat
    split at hat
    · cases hat
    · exact hat

theorem Inv.step (hi : Inv h) (hact : Unclaimed h act) (hs : stepHistory fuel h act = some h') :
    Inv h' := by
  obtain ⟨t, ht, rfl⟩ := Option.map_eq_some_iff.mp hs
  cases step_change ht with
  | quiet _ handles others _ =>
    obtain ⟨fs, hvfs⟩ := others
    refine hi.mounts (by rw [hvfs]) (by rw [handles]) fun n hn f hf => ?_
    rw [reached_congr (v := h.sys.kernel.vfs) (by rw [hvfs])]
    exact hi.inert n hn f (handles ▸ hf)
  | named _ _ _ vfs handles =>
    refine hi.mounts (by rw [vfs]) (by rw [handles]) fun n hn f hf => ?_
    rw [reached_congr (v := h.sys.kernel.vfs) (by rw [vfs])]
    exact hi.inert n hn f (handles ▸ hf)
  | opened opened _ handles =>
    obtain ⟨j, -, hvfs⟩ := opened.entry
    refine hi.mounts (by rw [hvfs]) (by rw [handles, List.length_append]; omega)
      fun n hn f hf => ?_
    change t.handles[n]? = some f at hf
    rw [handles, List.getElem?_append_left (hi.known n hn)] at hf
    rw [reached_congr (v := h.sys.kernel.vfs) (by rw [hvfs])]
    exact hi.inert n hn f hf
  | closed handle inUse vfs _ handles =>
    have hmounts : t.kernel.vfs.mounts = h.sys.kernel.vfs.mounts := by rw [vfs]; rfl
    refine hi.mounts hmounts (by rw [handles, List.length_set]) fun n hn f hf => ?_
    rw [reached_congr hmounts]
    change t.handles[n]? = some f at hf
    rw [handles] at hf
    obtain ⟨-, rfl⟩ | hf := getElem?_set_cases hf
    · exact reached_zero _
    · exact hi.inert n hn f hf
  | moved handle moved vfs _ handles =>
    have hmounts : t.kernel.vfs.mounts = h.sys.kernel.vfs.mounts := by rw [vfs]
    refine hi.mounts hmounts (by rw [handles, List.length_set]) fun n hn f hf => ?_
    rw [reached_congr hmounts]
    change t.handles[n]? = some f at hf
    rw [handles] at hf
    obtain ⟨rfl, rfl⟩ | hf := getElem?_set_cases hf
    · rw [reached_moved moved]
      exact hi.inert _ hn _ handle
    · exact hi.inert n hn f hf
  | mounted slot mounted _ vfs _ handles => exact hi.filled hact slot mounted vfs handles
  | unmounted _ vfs _ handles => exact hi.emptied vfs handles

/-! ## A mount that brings a handle back -/

theorem opsAt_mounted {m : MountSlot} (hi : v.freeMount = some i) :
    ({ v with mounts := v.mounts.set i m } : VfsTables).opsAt i = m.ops := by
  rw [VfsTables.opsAt, getElem?_mounts_set hi, if_pos rfl]
  rfl

theorem step_fills (hs : fills s.kernel act = some i) : ∃ t ops, step fuel s act = some t ∧
    t.handles = s.handles ∧ t.kernel.vfs.opsAt i = some ops := by
  have hfree := fills_free hs
  cases act with
  | mount mountpoint fsType deviceId ops =>
    refine ⟨_, ops, rfl, rfl, ?_⟩
    change (vfsMount s.kernel.vfs mountpoint fsType deviceId ops).2.opsAt i = _
    rw [vfsMount_of_some hs]
    exact opsAt_mounted hfree
  | mountFat32 mountpoint deviceId =>
    obtain ⟨hmounts, hslot⟩ := Option.ite_none_right_eq_some.mp hs
    obtain ⟨⟨ok, w⟩, hw, hok⟩ := Option.map_eq_some_iff.mp hmounts
    obtain rfl : ok = true := hok
    have hrun : fat32VfsMount mountpoint deviceId s.kernel =
        onVfs (fun v => vfsMount v mountpoint fsFat32 deviceId .fat32)
          { s.kernel with stores := { s.kernel.stores with fat32 := w } } := by
      rw [fat32VfsMount, bind_run, onStores, onFat32, hw]
      rfl
    have hstep : step fuel s (.mountFat32 mountpoint deviceId) =
        some ⟨⟨(vfsMount s.kernel.vfs mountpoint fsFat32 deviceId .fat32).2,
          { s.kernel.stores with fat32 := w }⟩, s.handles⟩ := by
      rw [step, Sys.run, hrun]
      rfl
    refine ⟨_, .fat32, hstep, rfl, ?_⟩
    rw [vfsMount_of_some hslot]
    exact opsAt_mounted hfree
  | _ => cases hs

theorem rule_stale (fuel : Nat) : Rule (stepHistory fuel) Inv StaleInert Unclaimed where
  sound := fun _ hi => hi.inert
  next := fun _ _ _ hi hact hs => hi.step hact hs
  fails := by
    intro h act _ hact
    simp only [Unclaimed, not_forall, not_not] at hact
    obtain ⟨i, hfills, n, hn, f, hf, hused, hmount⟩ := hact
    obtain ⟨t, ops, ht, hhandles, hops⟩ := step_fills hfills
    refine ⟨⟨t, h.stale ++ lost h.sys t⟩, by rw [stepHistory, ht]; rfl, fun hgood => ?_⟩
    have hnone := hgood n (List.mem_append_left _ hn) f (hhandles ▸ hf)
    rw [reached_eq_some.mpr ⟨hused, i, hmount, hops⟩] at hnone
    cases hnone

/-- **Stale handles are inert exactly until their slot is filled again.** In every
state of a run no call on a stale handle reaches a file system, if and only if
every mount that goes through takes a slot that no stale handle is for. A handle
that reaches none is refused, and nothing happens. -/
theorem stale_inert_iff {s : Sys} (hs : Booted s) (fuel : Nat) (acts : List Act) :
    ((∀ t ∈ visited (stepHistory fuel) acts ⟨s, []⟩, StaleInert t) ↔
      Heeded (stepHistory fuel) Unclaimed acts ⟨s, []⟩) ∧
    ∀ k f, reached k.vfs f = none → (∀ size, vfsRead f size k = some ((none, f), k)) ∧
      (∀ g src, vfsWrite g f src k = some ((none, f), k)) ∧
      ∀ position, vfsSeek f position k = some ((.error, f), k) :=
  ⟨(rule_stale fuel).visited_iff acts (inv_start hs), fun _ _ h => refused_of_not_reached h⟩

/-- A file of one byte is made and opened, and its file system unmounted. -/
def unmountOpen : List Act := [.create ⟨4, 5, 6⟩ examplePath, .openFile examplePath,
  .write 0 ⟨7, fun _ => 0⟩ [0x78], .seek 0 0, .unmount rootStr]

/-- Then another file system is mounted. -/
def remount : List Act :=
  .mount rootStr fsRamfs 0 .ramfs :: (unmountOpen ++ ([.mount rootStr fsRamfs 0 .ramfs] : List Act))

/-- Up to the unmount the condition is met: the one mount comes first. -/
theorem stale_inert_iff_example :
    Heeded (stepHistory 8) Unclaimed (.mount rootStr fsRamfs 0 .ramfs :: unmountOpen)
      ⟨bootedSys, []⟩ ∧
    ∀ t ∈ visited (stepHistory 8) (.mount rootStr fsRamfs 0 .ramfs :: unmountOpen)
      ⟨bootedSys, []⟩, StaleInert t := by
  have hheeded : Heeded (stepHistory 8) Unclaimed
      (.mount rootStr fsRamfs 0 .ramfs :: unmountOpen) ⟨bootedSys, []⟩ := by
    refine ⟨fun i _ n hn => (nomatch hn), fun t _ => heeded_of_forall (fun a ha h i hi => ?_) t⟩
    have hnone : ∀ k, fills k a = none := by
      simp only [unmountOpen, List.mem_cons, List.not_mem_nil, or_false] at ha
      obtain rfl | rfl | rfl | rfl | rfl := ha
      all_goals exact fun k => rfl
    rw [hnone] at hi
    cases hi
  exact ⟨hheeded, (stale_inert_iff booted_bootedSys 8 _).1.mpr hheeded⟩

/-- Behind the second mount the handle from before the unmount reads the byte. -/
theorem stale_handle_reads :
    (¬ ∀ t ∈ visited (stepHistory 8) remount ⟨bootedSys, []⟩, StaleInert t) ∧
      ∃ t ∈ visited (stepHistory 8) remount ⟨bootedSys, []⟩, t.stale = [0] ∧
        ∃ f, t.sys.handles[0]? = some f ∧
          (vfsRead f 1 t.sys.kernel).map (fun r => r.1.1) = some (some [0x78]) := by
  have hrun : (remount.foldlM (stepHistory 8) ⟨bootedSys, []⟩).any (fun t =>
      t.stale == [0] && t.sys.handles[0]? == some ⟨4, some 0, 0, true⟩ &&
        reached t.sys.kernel.vfs ⟨4, some 0, 0, true⟩ == some .ramfs &&
        (vfsRead ⟨4, some 0, 0, true⟩ 1 t.sys.kernel).map (fun r => r.1.1) ==
          some (some [0x78])) = true := by decide +kernel
  obtain ⟨t, ht, hshown⟩ := (Option.any_eq_true _ _).mp hrun
  simp only [Bool.and_eq_true, beq_iff_eq, and_assoc] at hshown
  obtain ⟨hstale, hhandle, hreach, hread⟩ := hshown
  have hmem := mem_visited_of_foldlM ht
  refine ⟨fun hgood => ?_, t, hmem, hstale, _, hhandle, hread⟩
  have hnone := hgood t hmem 0 (by rw [hstale]; exact .head _) _ hhandle
  rw [hnone] at hreach
  cases hreach

end ContinuumOS.Vfs.Stale
