import ContinuumOS.Vfs.Runs
import ContinuumOS.Ramfs.Soundness

/-! # Calls on paths of a RAM file system

What `Change.named` leaves open: a call on a path makes a node, or it is a
removal that refuses or takes out the node that the path names. -/
namespace ContinuumOS.Vfs.RamfsCalls
open ContinuumOS.Lib.Runs ContinuumOS.Libc.String
open ContinuumOS.Ramfs.Nodes ContinuumOS.Ramfs.Operations ContinuumOS.Ramfs.Runs
open ContinuumOS.Ramfs.Likeness ContinuumOS.Ramfs.Backing ContinuumOS.Ramfs.Soundness
open ContinuumOS.Vfs.Normalize
open ContinuumOS.Vfs.Resolution ContinuumOS.Vfs.Calls ContinuumOS.Vfs.Runs

/-- The calls that make a node. -/
def makes : Act → Option (Alloc × CStr)
  | .create a path => some (a, path)
  | .mkdir a path => some (a, path)
  | _ => none

variable {fuel : Nat} {s t : Sys} {act : Act}

theorem fresh_of_mallocable {a : Alloc} {s : FsState} (h : mallocable s a = true) : Fresh a s := by
  rw [mallocable, Bool.or_eq_true, beq_iff_eq, Option.isNone_iff_eq_none] at h
  exact h

theorem canonical_booted (hs : Booted s) : Canonical s.kernel.vfs.currentWorkingDirectory := by
  rw [hs.vfs]
  exact canonical_joinPath (fun _ hc => nomatch hc : PlainWords [])

theorem rewritten_keeps {r r' : FsState} (h : Rewritten r r') (hs : Sound r) :
    Sound r' ∧ Alike r r' ∧ r'.fdTable = r.fdTable := by
  obtain rfl | ⟨p, n, data, size, hn, rfl⟩ := h
  · exact ⟨hs, .refl _, rfl⟩
  · exact ⟨hs.rewrite hn data size, alike_rewrite hn data size, rfl⟩

/-- What a call can come to; only `vfs_remove` takes out a file. -/
inductive Came (s : FsState) (act : Act) (path relative : CStr) (s' : FsState) : Prop
  | made {a : Alloc} (makes : makes act = some (a, path)) (memory : mallocable s a = true)
      (made : MadeAt (backedState s) relative a.node (backedState s'))
  | removed {r : Int} (answers : Answers (backedState s) relative r (backedState s'))
      (file : act = .remove path ∨
        ∀ n, fsFindByPath s relative = some n → FileAt s n → s' = s)

theorem Came.sound {r r' : FsState} {path relative : CStr} (h : Came r act path relative r')
    (hs : Sound r) : Sound r' := by
  cases h with
  | made _ _ made => exact made.made.inv hs
  | removed answers _ => exact answers.inv hs

theorem Came.table {r r' : FsState} {path relative : CStr} (h : Came r act path relative r') :
    r'.fdTable = r.fdTable := by
  cases h with
  | made _ _ made => exact table_of_made made.made
  | removed answers _ => exact table_of_answers answers

theorem came_of_named (hcwd : Canonical s.kernel.vfs.currentWorkingDirectory)
    (hsound : Sound s.kernel.stores.ramfs) (hs : step fuel s act = some t)
    {path relative : CStr} {call : CStr → Call} {i : Nat}
    (hnamed : act.named = some (path, call))
    (hres : Resolves (fuel + 1) s.kernel.vfs path i .ramfs relative)
    (hrun : (call relative).run (fuel + 1) s.kernel.stores.ramfs = some t.kernel.stores.ramfs) :
    Came s.kernel.stores.ramfs act path relative t.kernel.stores.ramfs := by
  have hcanonical := (resolve_some hcwd hres.slot).2
  cases act with
  | create a path =>
    obtain ⟨rfl, rfl⟩ := Prod.mk.inj (Option.some.inj hnamed)
    obtain ⟨⟨r, u⟩, hu, rfl⟩ := Option.map_eq_some_iff.mp hrun
    have hmalloc := (Option.ite_none_right_eq_some.mp hs).1
    exact .made rfl hmalloc (touch_made hsound (fresh_of_mallocable hmalloc) hu)
  | mkdir a path =>
    obtain ⟨rfl, rfl⟩ := Prod.mk.inj (Option.some.inj hnamed)
    obtain ⟨⟨r, u⟩, hu, rfl⟩ := Option.map_eq_some_iff.mp hrun
    have hmalloc := (Option.ite_none_right_eq_some.mp hs).1
    exact .made rfl hmalloc (mkdir_made hsound (fresh_of_mallocable hmalloc) hu)
  | remove path =>
    obtain ⟨rfl, rfl⟩ := Prod.mk.inj (Option.some.inj hnamed)
    obtain ⟨⟨r, u⟩, hu, rfl⟩ := Option.map_eq_some_iff.mp hrun
    exact .removed (remove_answers hsound hcanonical hu) (.inl rfl)
  | rmdir path =>
    obtain ⟨rfl, rfl⟩ := Prod.mk.inj (Option.some.inj hnamed)
    obtain ⟨⟨r, u⟩, hu, rfl⟩ := Option.map_eq_some_iff.mp hrun
    refine .removed (rmdir_answers hsound hcanonical hu) (.inr fun n hfind hfile => ?_)
    obtain hsame | ⟨m, x, hm, hx, hdir⟩ := rmdir_directory hu
    · exact hsame
    · -- the node that goes is a directory
      obtain ⟨-, y, hy, htype⟩ := hfile
      rw [← Option.some.inj (hm.symm.trans hfind), hx] at hy
      rw [← Option.some.inj hy, hdir] at htype
      cases htype
  | _ => cases hnamed

/-! ## The tree over runs -/

/-- The working directory is canonical, and the directories are those of a tree. -/
structure Rooted (s : Sys) : Prop where
  cwd : Canonical s.kernel.vfs.currentWorkingDirectory
  sound : Sound s.kernel.stores.ramfs

theorem rooted_booted {a : Alloc} (hs : Booted s) (hram : s.kernel.stores.ramfs = fsInit a)
    (hnode : a.node ≠ 0) : Rooted s := ⟨canonical_booted hs, hram ▸ sound_fsInit hnode⟩

theorem Rooted.step (h : Rooted s) (hs : step fuel s act = some t) : Rooted t := by
  refine ⟨(step_change hs).cwd ▸ h.cwd, ?_⟩
  cases step_change hs with
  | quiet ramfs _ _ _ => exact ramfs ▸ h.sound
  | mounted _ _ _ _ ramfs _ => exact ramfs ▸ h.sound
  | unmounted _ _ ramfs _ => exact ramfs ▸ h.sound
  | opened _ ramfs _ => exact ramfs ▸ h.sound
  | closed _ _ _ ramfs _ => exact ramfs ▸ h.sound
  | moved _ _ _ ramfs _ => exact (rewritten_keeps ramfs h.sound).1
  | named named resolves run _ _ =>
    exact (came_of_named h.cwd h.sound hs named resolves run).sound h.sound

theorem rooted_visited {a : Alloc} (hs : Booted s) (hram : s.kernel.stores.ramfs = fsInit a)
    (hnode : a.node ≠ 0) (acts : List Act) : ∀ t ∈ visited (step fuel) acts s, Rooted t :=
  inv_visited_all (fun _ _ _ h hs => h.step hs) acts (rooted_booted hs hram hnode)

end ContinuumOS.Vfs.RamfsCalls
