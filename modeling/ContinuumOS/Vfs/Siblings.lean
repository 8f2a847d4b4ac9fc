import ContinuumOS.Vfs.RamfsCalls
import ContinuumOS.Ramfs.Siblings

/-! # Siblings of one name

The FAT32 adapter refuses to create what exists; the RAM file system makes a
second node of the name. The names of a run stay apart exactly as long as no
`vfs_create` or `vfs_mkdir` meets a child with its name. The shell's `echo` into
a file is such a run: it creates the file whether it exists or not. -/
namespace ContinuumOS.Vfs.Siblings
open ContinuumOS.Lib.Effect ContinuumOS.Lib.Runs ContinuumOS.Libc.String
open ContinuumOS.Ramfs.Nodes ContinuumOS.Ramfs.Runs
open ContinuumOS.Ramfs.Backing ContinuumOS.Ramfs.Soundness
open ContinuumOS.Ramfs.Siblings ContinuumOS.Ramfs.Operations ContinuumOS.Vfs.Normalize
open ContinuumOS.Vfs.Adapters ContinuumOS.Vfs.Files
open ContinuumOS.Vfs.Calls ContinuumOS.Vfs.Runs ContinuumOS.Vfs.RamfsCalls

/-- The call does not meet a child with its name, on a RAM file system and with
memory for the node. -/
def Avoids (fuel : Nat) (s : Sys) (act : Act) : Prop :=
  ∀ a path, makes act = some (a, path) → mallocable s.kernel.stores.ramfs a = true →
    a.node ≠ 0 → ∀ i relative, Resolves (fuel + 1) s.kernel.vfs path i .ramfs relative →
      ¬ Collides s.kernel.stores.ramfs relative

/-- `"\n"` -/
def newline : List UInt8 := [0x0a]

/-- `cmd_echo` with a redirection, once the text and the path are cut out of the
line. -/
def cmdEcho (fuel : Nat) (a : Alloc) (g g' : Grown) (path : CStr) (text : List UInt8) :
    Eff Kernel Unit := do
  let _ ← vfsCreate fuel a path
  let (_, handle) ← vfsOpen fuel path
  match handle with
  | none => return ()
  | some file =>
    let (written, file) ← vfsWrite g file text
    if written.isSome then
      let (_, file) ← vfsWrite g' file newline
      let _ ← vfsClose file
      return ()
    else
      let _ ← vfsClose file
      return ()

variable {fuel : Nat} {s t : Sys} {act : Act}

/-! ## The invariant -/

/-- The directories are those of a tree, and the names of siblings differ. -/
structure Inv (s : Sys) : Prop where
  cwd : Canonical s.kernel.vfs.currentWorkingDirectory
  sound : Sound s.kernel.stores.ramfs
  names : UniqueNames s.kernel.stores.ramfs

theorem listed_fsInit (a : Alloc) (p : Ptr) : (fsInit a).listed p = [] := by
  rw [fsInit, fsCreateNode]
  by_cases hnode : a.node = 0
  · rw [if_pos hnode]
    rfl
  · rw [if_neg hnode]
    by_cases hp : p = a.node
    · rw [hp]
      exact FsState.listed_of_node (FsState.store_self ..)
    · exact FsState.listed_of_none (FsState.store_ne _ _ hp)

theorem uniqueNames_fsInit {a : Alloc} : UniqueNames (fsInit a) := fun p => by
  rw [listed_fsInit]
  exact List.nodup_nil

theorem not_collides_fsInit {a : Alloc} {path : CStr} : ¬ Collides (fsInit a) path :=
  fun ⟨p, _, _, hreceives, _, _, hc, _⟩ => by
    rw [← FsState.listed_of_node hreceives.node, listed_fsInit] at hc
    cases hc

theorem inv_start {a : Alloc} (hs : Booted s) (hram : s.kernel.stores.ramfs = fsInit a)
    (hnode : a.node ≠ 0) : Inv s :=
   ⟨canonical_booted hs, hram ▸ sound_fsInit hnode, hram ▸ uniqueNames_fsInit⟩

theorem Inv.came (h : Inv s) (hact : Avoids fuel s act) {path relative : CStr} {i : Nat}
    (hres : Resolves (fuel + 1) s.kernel.vfs path i .ramfs relative)
    (hcame : Came s.kernel.stores.ramfs act path relative t.kernel.stores.ramfs) :
    UniqueNames t.kernel.stores.ramfs := by
  cases hcame with
  | made makes memory made =>
    exact uniqueNames_made h.sound h.names made fun ha => hact _ _ makes memory ha i relative hres
  | removed answers _ =>
    have hback := uniqueNames_alike (alike_backedState _) h.names
    exact uniqueNames_alike (alike_backedState _).symm (uniqueNames_answers answers h.sound hback)

theorem Inv.step (h : Inv s) (hact : Avoids fuel s act) (hs : step fuel s act = some t) : Inv t := by
  have hcwd : Canonical t.kernel.vfs.currentWorkingDirectory := (step_change hs).cwd ▸ h.cwd
  cases step_change hs with
  | quiet ramfs _ _ _ => exact ⟨hcwd, ramfs ▸ h.sound, ramfs ▸ h.names⟩
  | mounted _ _ _ _ ramfs _ => exact ⟨hcwd, ramfs ▸ h.sound, ramfs ▸ h.names⟩
  | unmounted _ _ ramfs _ => exact ⟨hcwd, ramfs ▸ h.sound, ramfs ▸ h.names⟩
  | opened _ ramfs _ => exact ⟨hcwd, ramfs ▸ h.sound, ramfs ▸ h.names⟩
  | closed _ _ _ ramfs _ => exact ⟨hcwd, ramfs ▸ h.sound, ramfs ▸ h.names⟩
  | moved _ _ _ ramfs _ =>
    obtain ⟨hsound, halike, -⟩ := rewritten_keeps ramfs h.sound
    exact ⟨hcwd, hsound, uniqueNames_alike halike h.names⟩
  | named named resolves run _ _ =>
    have hcame := came_of_named h.cwd h.sound hs named resolves run
    exact ⟨hcwd, hcame.sound h.sound, h.came hact resolves hcame⟩

/-! ## A second node of one name -/

theorem step_collides (h : Inv s) {a : Alloc} {path relative : CStr} {i : Nat}
    (hmakes : makes act = some (a, path))
    (hmalloc : mallocable s.kernel.stores.ramfs a = true) (ha : a.node ≠ 0)
    (hres : Resolves (fuel + 1) s.kernel.vfs path i .ramfs relative)
    (hcollides : Collides s.kernel.stores.ramfs relative) :
    ∃ t, step fuel s act = some t ∧ ¬ UniqueNames t.kernel.stores.ramfs := by
  have hfresh := fresh_of_mallocable hmalloc
  obtain ⟨⟨r, u, hu⟩, ⟨r', u', hu'⟩⟩ := makes_returns ha (hfresh.resolve_left ha) hcollides
  cases act with
  | create b path' =>
    obtain ⟨rfl, rfl⟩ := Prod.mk.inj (Option.some.inj hmakes)
    have hop : Ops.create b .ramfs relative s.kernel.stores =
        some (.ofBool (r' ≠ 0), { s.kernel.stores with ramfs := u' }) := by
      rw [Ops.create, ramfsVfsCreate, bind_run, onRamfs, hu']
      rfl
    refine ⟨⟨{ s.kernel with stores := { s.kernel.stores with ramfs := u' } }, s.handles⟩, ?_,
      not_uniqueNames_made h.sound (touch_made h.sound hfresh hu') ha hcollides⟩
    rw [step, if_pos hmalloc, Sys.run, vfsCreate, onPath_ok hres hop]
    rfl
  | mkdir b path' =>
    obtain ⟨rfl, rfl⟩ := Prod.mk.inj (Option.some.inj hmakes)
    have hop : Ops.mkdir b .ramfs relative s.kernel.stores =
        some (.ofBool (r ≠ 0), { s.kernel.stores with ramfs := u }) := by
      rw [Ops.mkdir, ramfsVfsMkdir, bind_run, onRamfs, hu]
      rfl
    refine ⟨⟨{ s.kernel with stores := { s.kernel.stores with ramfs := u } }, s.handles⟩, ?_,
      not_uniqueNames_made h.sound (mkdir_made h.sound hfresh hu) ha hcollides⟩
    rw [step, if_pos hmalloc, Sys.run, vfsMkdir, onPath_ok hres hop]
    rfl
  | _ => cases hmakes

theorem rule_separate (fuel : Nat) :
    Rule (step fuel) Inv (fun s => Separate s.kernel.stores.ramfs) (Avoids fuel) where
  sound := fun _ h => separate_of_unique h.sound h.names
  next := fun _ _ _ h hact hs => h.step hact hs
  fails := by
    intro s act h hact
    simp only [Avoids, not_forall, not_not] at hact
    obtain ⟨a, path, hmakes, hmalloc, ha, i, relative, hres, hcollides⟩ := hact
    obtain ⟨t, ht, hdup⟩ := step_collides h hmakes hmalloc ha hres hcollides
    exact ⟨t, ht, fun hseparate => hdup hseparate.names⟩

/-! ## The redirection of `echo` -/

theorem runOn_last {k k' : Kernel} {fs : List VfsFile} {f f' : VfsFile}
    {call : VfsFile → Eff Kernel VfsFile} (h : call f k = some (f', k')) :
    (⟨k, fs ++ [f]⟩ : Sys).runOn fs.length call = some ⟨k', fs ++ [f']⟩ := by
  have hlast : (fs ++ [f])[fs.length]? = some f := by
    rw [List.getElem?_append_right le_rfl, Nat.sub_self]
    rfl
  have hset : (fs ++ [f]).set fs.length f' = fs ++ [f'] := by
    rw [List.set_append_right _ _ le_rfl, Nat.sub_self]
    rfl
  rw [Sys.runOn]
  simp only [hlast, h, Option.map_some, hset]

theorem step_write (fuel : Nat) (fs : List VfsFile) {k k' : Kernel} {f f' : VfsFile} {g : Grown}
    {src : List UInt8} {r : Option Nat} (h : vfsWrite g f src k = some ((r, f'), k')) :
    step fuel ⟨k, fs ++ [f]⟩ (.write fs.length g src) = some ⟨k', fs ++ [f']⟩ := by
  refine runOn_last ?_
  rw [bind_run, h]
  rfl

theorem step_close (fuel : Nat) (fs : List VfsFile) {k k' : Kernel} {f f' : VfsFile}
    (h : vfsClose f k = some (f', k')) :
    step fuel ⟨k, fs ++ [f]⟩ (.close fs.length) = some ⟨k', fs ++ [f']⟩ := runOn_last h

theorem cmdEcho_run {a : Alloc} {g g' : Grown} {path : CStr} {text : List UInt8} {k : Kernel}
    (hmalloc : mallocable s.kernel.stores.ramfs a = true)
    (h : cmdEcho (fuel + 1) a g g' path text s.kernel = some ((), k)) :
    ∃ acts t, (.create a path :: acts).foldlM (step fuel) s = some t ∧ t.kernel = k := by
  rw [cmdEcho] at h
  obtain ⟨⟨code, k₁⟩, hcreate, h⟩ := Option.bind_eq_some_iff.mp h
  obtain ⟨⟨⟨result, handle⟩, k₂⟩, hopen, h⟩ := Option.bind_eq_some_iff.mp h
  have hfirst : step fuel s (.create a path) = some ⟨k₁, s.handles⟩ := by
    rw [step, if_pos hmalloc, Sys.run, hcreate]
    rfl
  have hsecond : step fuel ⟨k₁, s.handles⟩ (.openFile path) =
      some ⟨k₂, s.handles ++ handle.toList⟩ := by
    rw [step, hopen]
    rfl
  cases handle with
  | none =>
    cases h
    refine ⟨[.openFile path], ⟨k₂, s.handles ++ []⟩, ?_, rfl⟩
    simp only [List.foldlM_cons, List.foldlM_nil, hfirst, hsecond, Option.bind_eq_bind,
      Option.bind_some]
    rfl
  | some f =>
    obtain ⟨⟨⟨written, f₁⟩, k₃⟩, hwrite, h⟩ := Option.bind_eq_some_iff.mp h
    have hthird := step_write fuel s.handles hwrite
    simp only [ite_run] at h
    split at h
    · obtain ⟨⟨⟨r, f₂⟩, k₄⟩, hnewline, h⟩ := Option.bind_eq_some_iff.mp h
      obtain ⟨⟨f₃, k₅⟩, hclose, h⟩ := Option.bind_eq_some_iff.mp h
      cases h
      have hfourth := step_write fuel s.handles hnewline
      have hfifth := step_close fuel s.handles hclose
      refine ⟨[.openFile path, .write s.handles.length g text,
        .write s.handles.length g' newline, .close s.handles.length],
        ⟨k₅, s.handles ++ [f₃]⟩, ?_, rfl⟩
      simp only [List.foldlM_cons, List.foldlM_nil, hfirst, hsecond, Option.toList_some, hthird,
        hfourth, hfifth, Option.bind_eq_bind, Option.bind_some]
      rfl
    · obtain ⟨⟨f₃, k₅⟩, hclose, h⟩ := Option.bind_eq_some_iff.mp h
      cases h
      have hfourth := step_close fuel s.handles hclose
      refine ⟨[.openFile path, .write s.handles.length g text, .close s.handles.length],
        ⟨k₅, s.handles ++ [f₃]⟩, ?_, rfl⟩
      simp only [List.foldlM_cons, List.foldlM_nil, hfirst, hsecond, Option.toList_some, hthird,
        hfourth, Option.bind_eq_bind, Option.bind_some]
      rfl

/-- **The names of siblings stay apart exactly as long as nothing is made under a
name that is taken.** In every state of a run no directory has two children of
one name, a path denotes one node at most and is not found after its removal, if
and only if no call makes a node in a directory with room and a child of the
name. An `echo` into a file is such a run, and begins with `vfs_create`. -/
theorem sibling_names_iff {a : Alloc} (hs : Booted s) (hram : s.kernel.stores.ramfs = fsInit a)
    (hnode : a.node ≠ 0) (fuel : Nat) (acts : List Act) :
    ((∀ t ∈ visited (step fuel) acts s, Separate t.kernel.stores.ramfs) ↔
      Heeded (step fuel) (Avoids fuel) acts s) ∧
    ∀ (u : Sys) (b : Alloc) (g g' : Grown) (path : CStr) (text : List UInt8) (k : Kernel),
      mallocable u.kernel.stores.ramfs b = true →
      cmdEcho (fuel + 1) b g g' path text u.kernel = some ((), k) →
      ∃ rest t, (.create b path :: rest).foldlM (step fuel) u = some t ∧ t.kernel = k :=
  ⟨(rule_separate fuel).visited_iff acts (inv_start hs hram hnode),
    fun _ _ _ _ _ _ _ hmalloc h => cmdEcho_run hmalloc h⟩

/-- A second file beside the first, under another name. -/
theorem sibling_names_iff_example :
    Heeded (step 8) (Avoids 8) (makeFile ++ ([.create ⟨7, 8, 9⟩ otherPath] : List Act)) bootedSys ∧
    ∀ t ∈ visited (step 8) (makeFile ++ ([.create ⟨7, 8, 9⟩ otherPath] : List Act)) bootedSys,
      Separate t.kernel.stores.ramfs := by
  have hrun : (makeFile.foldlM (step 8) bootedSys).all (fun t =>
      resolve 9 t.kernel.vfs otherPath == some (some (0, otherPath)) &&
      (splitPath otherPath).any (fun r => r.2 == [0x67] &&
        (fsFindByPath t.kernel.stores.ramfs r.1).any fun p =>
          (t.kernel.stores.ramfs.listed p).all fun c =>
            nameOf t.kernel.stores.ramfs c != some [0x67])) = true := by decide +kernel
  have hfirst : Heeded (step 8) (Avoids 8) makeFile bootedSys := by
    refine ⟨fun _ _ hmakes => (nomatch hmakes), fun u hu => ⟨fun b path _ _ _ i relative _ => ?_,
      fun _ _ => trivial⟩⟩
    have hinit : u.kernel.stores.ramfs = fsInit ⟨1, 2, 3⟩ := by
      rw [← Option.some.inj hu]
      rfl
    rw [hinit]
    exact not_collides_fsInit
  have hheeded : Heeded (step 8) (Avoids 8)
      (makeFile ++ ([.create ⟨7, 8, 9⟩ otherPath] : List Act)) bootedSys := by
    refine heeded_append hfirst fun t ht => ⟨fun b path hmakes _ _ i relative hres => ?_,
      fun _ _ => trivial⟩
    cases hmakes
    rw [ht, Option.all_some, Bool.and_eq_true, beq_iff_eq] at hrun
    obtain ⟨hresolve, hnames⟩ := hrun
    have hslot := Option.some.inj (Option.some.inj (hres.slot.symm.trans hresolve))
    obtain ⟨rfl, rfl⟩ := Prod.mk.inj hslot
    -- the directory of the path has no child of the name
    rintro ⟨p, name, y, hreceives, -, c, hc, hname⟩
    obtain ⟨parent, hsplit, hparent⟩ := hreceives.split
    rw [hsplit, Option.any_some, Bool.and_eq_true, beq_iff_eq, hparent, Option.any_some,
      List.all_eq_true, FsState.listed_of_node hreceives.node] at hnames
    exact bne_iff_ne.mp (hnames.2 c hc) (hname.trans (congrArg some hnames.1))
  exact ⟨hheeded,
    (sibling_names_iff (a := ⟨1, 2, 3⟩) booted_bootedSys rfl Nat.one_ne_zero 8 _).1.mpr hheeded⟩

/-- `vfs_create("/f")` twice: two children of the root have the name, and after
`vfs_remove("/f")` the path leads to the second. -/
theorem created_twice :
    (¬ ∀ t ∈ visited (step 8) (makeFile ++ ([.create ⟨7, 8, 9⟩ examplePath] : List Act)) bootedSys,
      Separate t.kernel.stores.ramfs) ∧
    ∃ t ∈ visited (step 8) (makeFile ++ ([.create ⟨7, 8, 9⟩ examplePath] : List Act)) bootedSys,
      t.kernel.stores.ramfs.listed 1 = [4, 7] ∧
      ((fsRemove 1 t.kernel.stores.ramfs examplePath).bind fun r =>
        (fsFindByPath r.2 examplePath).map fun n => (r.1, n)) = some (0, 7) := by
  have hrun : ((makeFile ++ ([.create ⟨7, 8, 9⟩ examplePath] : List Act)).foldlM (step 8)
      bootedSys).any (fun t => t.kernel.stores.ramfs.listed 1 == [4, 7] &&
        ((fsRemove 1 t.kernel.stores.ramfs examplePath).bind fun r =>
          (fsFindByPath r.2 examplePath).map fun n => (r.1, n)) == some (0, 7)) = true := by
    decide +kernel
  obtain ⟨t, ht, hshown⟩ := (Option.any_eq_true _ _).mp hrun
  simp only [Bool.and_eq_true, beq_iff_eq] at hshown
  have hmem := mem_visited_of_foldlM ht
  refine ⟨fun hseparate => ?_, t, hmem, hshown⟩
  obtain ⟨⟨r, u⟩, hremove, hfind⟩ := Option.bind_eq_some_iff.mp hshown.2
  obtain ⟨n, hn, hpair⟩ := Option.map_eq_some_iff.mp hfind
  obtain ⟨rfl, rfl⟩ := Prod.mk.inj hpair
  have hlost := (hseparate t hmem).lost 1 _ _ hremove
  rw [hn] at hlost
  cases hlost

end ContinuumOS.Vfs.Siblings
