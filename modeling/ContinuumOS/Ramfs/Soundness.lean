import ContinuumOS.Ramfs.Backing
import ContinuumOS.Ramfs.Runs

/-! # What the calls come to, whatever `kmalloc` returns

A state is a tree once its directories have their arrays (`Sound`). `fs_touch`
and `fs_mkdir` then do nothing or make a node, `fs_remove` and `fs_rmdir` refuse
or take out the node that the path names. -/
namespace ContinuumOS.Ramfs.Soundness
open ContinuumOS.Libc.String ContinuumOS.Vfs.Path ContinuumOS.Vfs.Normalize
open ContinuumOS.Ramfs.Nodes ContinuumOS.Ramfs.Tree ContinuumOS.Ramfs.Operations
open ContinuumOS.Ramfs.Runs ContinuumOS.Ramfs.Likeness ContinuumOS.Ramfs.Backing

variable {s s' t : FsState} {p q : Ptr} {n : FSNode}

/-- A tree once the directories have their arrays. -/
def Sound (s : FsState) : Prop := Inv (backedState s)

theorem sound_fsInit {a : Alloc} (hnode : a.node ≠ 0) : Sound (fsInit a) := by
  have hmade : backedState (fsInit a) = fsInit (withArray a) := by
    have hback := fsCreateNode_backed
      { root := 0, nodes := fun _ => none
        fdTable := List.replicate maxOpenFiles ⟨0, 0, false⟩ } a rootStr .directory
    rw [fsInit, fsInit]
    exact (congrArg (fun r : Ptr × FsState => ({ r.2 with root := r.1 } : FsState)) hback).symm
  rw [Sound, hmade]
  exact inv_fsInit (a := withArray a) hnode Nat.one_ne_zero

/-- Addresses that the calls of `kmalloc` may return. -/
def Fresh (a : Alloc) (s : FsState) : Prop := a.node = 0 ∨ s.nodes a.node = none

theorem fsAddChild_null (h : Sound s) {parent : Ptr} (hrun : fsAddChild s parent 0 = some s') :
    s' = s := by
  rw [fsAddChild] at hrun
  split at hrun
  · exact (Option.some.inj hrun).symm
  rename_i hnull
  obtain ⟨x, hx, hrun⟩ := Option.bind_eq_some_iff.mp hrun
  split at hrun
  · exact (Option.some.inj hrun).symm
  split at hrun
  · exact (Option.some.inj hrun).symm
  obtain ⟨slots, -, hrun⟩ := Option.bind_eq_some_iff.mp hrun
  obtain ⟨c, hc, -⟩ := Option.bind_eq_some_iff.mp hrun
  rw [FsState.store_ne _ _ (Ne.symm hnull), (alike_backedState s).symm.none h.null] at hc
  cases hc

theorem mkdir_made (h : Sound s) {a : Alloc} (ha : Fresh a s) {path : CStr} {r : Ptr}
    (hrun : fsMkdir s a path = some (r, s')) :
    MadeAt (backedState s) path a.node (backedState s') := by
  by_cases hnode : a.node = 0
  · suffices s' = s from .inl ⟨congrArg backedState this, .inl hnode⟩
    rw [fsMkdir] at hrun
    obtain ⟨⟨parentPath, name⟩, -, hrun⟩ := Option.bind_eq_some_iff.mp hrun
    obtain ⟨p, -, hrun⟩ := Option.bind_eq_some_iff.mp hrun
    split at hrun
    · cases hrun
      rfl
    obtain ⟨x, -, hrun⟩ := Option.bind_eq_some_iff.mp hrun
    split at hrun
    · cases hrun
      rfl
    rw [fsCreateNode, if_pos hnode] at hrun
    obtain ⟨t, ht, hrun⟩ := Option.bind_eq_some_iff.mp hrun
    cases hrun
    exact fsAddChild_null h ht
  · have hback := fsMkdir_backed hrun
    have hsplit : (splitPath path).isSome := by
      rw [fsMkdir] at hrun
      obtain ⟨parts, hparts, -⟩ := Option.bind_eq_some_iff.mp hrun
      exact Option.isSome_iff_exists.mpr ⟨parts, hparts⟩
    obtain ⟨r', t, ht, hmade⟩ := fsMkdir_spec (a := withArray a) h hnode
      ((alike_backedState s).none (ha.resolve_left hnode)) Nat.one_ne_zero hsplit
    rw [hback] at ht
    cases ht
    exact hmade

theorem touch_made (h : Sound s) {a : Alloc} (ha : Fresh a s) {path : CStr} {r : Ptr}
    (hrun : fsTouch s a path = some (r, s')) :
    MadeAt (backedState s) path a.node (backedState s') := by
  by_cases hnode : a.node = 0
  · suffices s' = s from .inl ⟨congrArg backedState this, .inl hnode⟩
    rw [fsTouch] at hrun
    obtain ⟨⟨parentPath, name⟩, -, hrun⟩ := Option.bind_eq_some_iff.mp hrun
    obtain ⟨p, -, hrun⟩ := Option.bind_eq_some_iff.mp hrun
    split at hrun
    · cases hrun
      rfl
    obtain ⟨x, -, hrun⟩ := Option.bind_eq_some_iff.mp hrun
    split at hrun
    · cases hrun
      rfl
    rw [fsCreateNode, if_pos hnode] at hrun
    cases hrun
    rfl
  · have hback := fsTouch_backed hrun
    have hsplit : (splitPath path).isSome := by
      rw [fsTouch] at hrun
      obtain ⟨parts, hparts, -⟩ := Option.bind_eq_some_iff.mp hrun
      exact Option.isSome_iff_exists.mpr ⟨parts, hparts⟩
    obtain ⟨r', t, ht, hmade⟩ := fsTouch_spec (a := withArray a) h hnode
      ((alike_backedState s).none (ha.resolve_left hnode)) Nat.one_ne_zero hsplit
    rw [hback] at ht
    cases ht
    exact hmade

theorem remove_answers (h : Sound s) {path : CStr} (hpath : Canonical path) {fuel : Nat} {r : Int}
    (hrun : fsRemove fuel s path = some (r, s')) :
    Answers (backedState s) path r (backedState s') :=
  fsRemove_answers h hpath (fsRemove_backed hrun)

theorem rmdir_answers (h : Sound s) {path : CStr} (hpath : Canonical path) {fuel : Nat} {r : Int}
    (hrun : fsRmdir fuel s path = some (r, s')) :
    Answers (backedState s) path r (backedState s') :=
  fsRmdir_answers h hpath (fsRmdir_backed hrun)

theorem rmdir_directory {path : CStr} {fuel : Nat} {r : Int}
    (hrun : fsRmdir fuel s path = some (r, s')) : s' = s ∨
      ∃ n x, fsFindByPath s path = some n ∧ s.nodes n = some x ∧ x.type = .directory := by
  rw [fsRmdir] at hrun
  split at hrun
  · cases hrun
    exact .inl rfl
  obtain ⟨n, hfind, hrun⟩ := Option.bind_eq_some_iff.mp hrun
  split at hrun
  · cases hrun
    exact .inl rfl
  obtain ⟨x, hx, hrun⟩ := Option.bind_eq_some_iff.mp hrun
  split at hrun
  · cases hrun
    exact .inl rfl
  · rename_i htype
    exact .inr ⟨n, x, hfind, hx, not_not.mp htype⟩

theorem alike_rewrite (h : s.nodes p = some n) (data size : Nat) :
    Alike s (s.store p { n with data, size }) := by
  refine ⟨rfl, fun q => ?_⟩
  by_cases hq : q = p
  · rw [hq, FsState.store_self, h]
    rfl
  · rw [FsState.store_ne _ _ hq]

theorem Sound.rewrite (hs : Sound s) (h : s.nodes p = some n) (data size : Nat) :
    Sound (s.store p { n with data, size }) := by
  rw [Sound, backedState_store, backed_rewrite]
  refine (alike_rewrite (backedState_nodes h) data size).inv rfl (fun q y hy => ?_) hs
  by_cases hq : q = p
  · rw [hq, FsState.store_self] at hy
    have hok := hs.node p _ (backedState_nodes h)
    exact Option.some.inj hy ▸ ⟨hok.capacity, hok.array, hok.file⟩
  · rw [FsState.store_ne _ _ hq] at hy
    exact hs.node q y hy

theorem table_of_made {a : Ptr} (h : Made (backedState s) a (backedState s')) :
    s'.fdTable = s.fdTable := by
  obtain h | ⟨p, h⟩ | h := h
  · rw [← backedState_fdTable s', h, backedState_fdTable]
  · exact h.table
  · exact h.table

theorem table_of_answers {path : CStr} {r : Int}
    (h : Answers (backedState s) path r (backedState s')) : s'.fdTable = s.fdTable := by
  obtain ⟨-, h⟩ | ⟨-, -, p, n, -, -, -, hremoved, -⟩ := h
  · rw [← backedState_fdTable s', h, backedState_fdTable]
  · exact hremoved.table

/-! ## Reachable files -/

/-- A file of the tree. -/
def FileAt (s : FsState) (p : Ptr) : Prop :=
  Reach s p ∧ ∃ n, s.nodes p = some n ∧ n.type = .file

theorem file_of_alike (h : Alike s t) (hp : FileAt s p) : FileAt t p := by
  obtain ⟨hreach, n, hn, htype⟩ := hp
  obtain ⟨y, hy, -, hytype, -⟩ := h.some hn
  exact ⟨h.reach hreach, y, hy, hytype.trans htype⟩

theorem fileAt_backed : FileAt (backedState s) p ↔ FileAt s p :=
  ⟨file_of_alike (alike_backedState s).symm, file_of_alike (alike_backedState s)⟩

theorem file_of_made {a : Ptr} (h : Made (backedState s) a (backedState s')) (hp : FileAt s p) :
    FileAt s' p := by
  obtain ⟨hreach, n, hn, htype⟩ := fileAt_backed.mpr hp
  refine fileAt_backed.mp ?_
  obtain h | ⟨q, h⟩ | h := h
  · exact h ▸ ⟨hreach, n, hn, htype⟩
  · obtain ⟨y, hy, hytype, -⟩ := h.kept hn
    exact ⟨h.reach hreach, y, hy, hytype.trans htype⟩
  · exact ⟨h.reach hreach, n, h.kept hn, htype⟩

theorem file_of_answers {path : CStr} {r : Int}
    (h : Answers (backedState s) path r (backedState s')) (hs : Sound s)
    (hother : fsFindByPath s path ≠ some p) (hp : FileAt s p) : FileAt s' p := by
  have hback := fileAt_backed.mpr hp
  refine fileAt_backed.mp ?_
  obtain ⟨-, h⟩ | ⟨-, -, q, n, hnamed, -, -, hremoved, -⟩ := h
  · exact h ▸ hback
  obtain ⟨hreach, x, hx, htype⟩ := hback
  rw [(alike_backedState s).fsFindByPath] at hnamed
  have hne : p ≠ n := fun he => hother (he ▸ hnamed)
  obtain ⟨y, hy, hytype, -⟩ := hremoved.kept hne hx
  exact ⟨(hremoved.reach_iff hs).mpr ⟨hreach, hne⟩, y, hy, hytype.trans htype⟩

theorem array_of_listed {c : Ptr} (h : c ∈ n.listed) : ∃ slots, n.children = some slots := by
  rw [FSNode.listed] at h
  cases hchildren : n.children with
  | none => rw [hchildren, Option.getD_none, List.take_nil] at h; cases h
  | some slots => exact ⟨slots, rfl⟩

theorem fsRemoveChild_returns {x y : FSNode} (hp : s.nodes p = some x) (htype : x.type = .file)
    (hq : s.nodes q = some y) (hmem : p ∈ y.listed) (fuel : Nat) :
    ∃ t, fsRemoveChild (fuel + 1) s q p = some t ∧ ∃ z, t.nodes p = some z := by
  rw [fsRemoveChild]
  split
  · exact ⟨s, rfl, x, hp⟩
  simp only [hq, Option.bind_eq_bind, Option.bind_some]
  split
  · exact ⟨s, rfl, x, hp⟩
  cases hplace : y.listed.idxOf? p with
  | none => exact ⟨s, rfl, x, hp⟩
  | some i =>
    obtain ⟨slots, hslots⟩ := array_of_listed hmem
    have hfile : x.type ≠ .directory := fun hd => by rw [htype] at hd; cases hd
    simp only [hp, Option.bind_some, if_neg hfile, hslots]
    refine ⟨_, rfl, ?_⟩
    by_cases hpq : p = q
    · rw [hpq]
      exact ⟨_, FsState.store_self ..⟩
    · exact ⟨x, (FsState.store_ne _ _ hpq).trans hp⟩

theorem remove_file (hs : Sound s) {path : CStr} (hpath : Canonical path)
    (hfind : fsFindByPath s path = some p) (hp : FileAt s p)
    (hclosed : ∀ d ∈ s.fdTable, d.used = false) (fuel : Nat) :
    ∃ s', fsRemove (fuel + 1) s path = some (0, s') ∧ ¬ Reach s' p := by
  obtain ⟨x, hx, htype⟩ := hp.2
  have hback := backedState_nodes hx
  have hopen : ¬ s.fdTable.any (openOn p) = true := fun hany => by
    obtain ⟨d, hd, hon⟩ := List.any_eq_true.mp hany
    rw [openOn, hclosed d hd] at hon
    cases hon
  obtain ⟨s', hs'⟩ : ∃ s', unlink (fuel + 1) s p = some (0, s') := by
    obtain ⟨hroot, -⟩ | ⟨-, hlisted⟩ :=
      Inv.reach_parent hs ((alike_backedState s).reach hp.1) hback
    · obtain ⟨y, hy, hdir, -⟩ := hs.root
      rw [← hroot, hback] at hy
      rw [← Option.some.inj hy, backed_type, htype] at hdir
      cases hdir
    rw [backed_parent, (alike_backedState s).listed] at hlisted
    obtain ⟨y, hy, hmem⟩ := mem_listed hlisted
    obtain ⟨t, ht, z, hz⟩ := fsRemoveChild_returns hx htype hy hmem fuel
    have hparent : x.parent ≠ 0 := Inv.ne_null hs (backedState_nodes hy)
    have hfree : fsFreeNode t p = some (t.release p) := by
      rw [fsFreeNode, if_neg (Inv.ne_null hs hback), hz]
      rfl
    exact ⟨t.release p, by
      simp only [unlink, hx, Option.bind_eq_bind, Option.bind_some, if_pos hparent, ht, hfree]⟩
  have hrun : fsRemove (fuel + 1) s path = some (0, s') := by
    have hfile : ¬ x.type ≠ .file := not_not.mpr htype
    simp only [fsRemove, hfind, Option.bind_eq_bind, Option.bind_some,
      if_neg (Inv.ne_null hs hback), hx, if_neg hfile, if_neg hopen, hs']
  refine ⟨s', hrun, fun hreach => ?_⟩
  obtain ⟨hr, -⟩ | ⟨-, -, q, n, hnamed, -, -, -, hiff⟩ := remove_answers hs hpath hrun
  · cases hr
  · rw [(alike_backedState s).fsFindByPath, hfind] at hnamed
    exact ((hiff p).mp ((alike_backedState s').reach hreach)).2 (Option.some.inj hnamed)

end ContinuumOS.Ramfs.Soundness
