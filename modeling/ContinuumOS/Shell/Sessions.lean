import ContinuumOS.Shell.Commands
import ContinuumOS.Vfs.SharedFiles
import ContinuumOS.Vfs.Simulation

/-! # Sessions of the shell

What holds between the lines of a session, whatever other code asks of the kernel in
between: the blocks of the heap are with their owners, the directories are those of a
tree, and the working directory is canonical. -/
namespace ContinuumOS.Shell.Sessions
open ContinuumOS.Lib.Blocks ContinuumOS.Lib.Runs
open ContinuumOS.Lib.Effect ContinuumOS.Libc.String
open ContinuumOS.Heap.Layout ContinuumOS.Heap.Invariant
open ContinuumOS.Ramfs.Nodes ContinuumOS.Ramfs.Holdings ContinuumOS.Ramfs.Likeness
open ContinuumOS.Ramfs.Soundness ContinuumOS.Vfs.Path ContinuumOS.Vfs.Normalize
open ContinuumOS.Vfs.Adapters ContinuumOS.Vfs.Files ContinuumOS.Vfs.Calls
open ContinuumOS.Vfs.Resolution ContinuumOS.Vfs.Transfers ContinuumOS.Vfs.Visible
open ContinuumOS.Vfs.Listing ContinuumOS.Vfs.RamfsCalls ContinuumOS.Vfs.OnHeap
open ContinuumOS.Vfs.Owners ContinuumOS.Vfs.AnyBytes
open ContinuumOS.Vfs.Quiet ContinuumOS.Vfs.Writing ContinuumOS.Vfs.SharedFiles
open ContinuumOS.Vfs.Simulation ContinuumOS.Shell.Commands

variable {fuel rounds n i j c : Nat} {s t u : Sys} {bs : List Block} {act : Act} {r : Answer}
  {path relative out text filename : CStr} {args : Option CStr} {p q : Ptr} {x : FSNode}
  {f : VfsFile}

/-! ## Opening -/

/-- The path names a RAM file: the node, and the mount. -/
structure Names (rounds : Nat) (s : Sys) (path : CStr) (i : Nat) (relative : CStr) (p : Ptr)
    (x : FSNode) : Prop where
  resolves : Resolves rounds s.kernel.vfs path i .ramfs relative
  found : fsFindByPath s.ramfs relative = some p
  notNull : p ≠ 0
  node : s.ramfs.nodes p = some x
  file : x.type = .file

/-- The system once the entry `j` of the table holds `f`, and so does a caller. -/
def opened (s : Sys) (j : Nat) (f : VfsFile) : Sys :=
  { s with
    kernel := { s.kernel with vfs := { s.kernel.vfs with
      openFiles := s.kernel.vfs.openFiles.set j f } }
    handles := s.handles ++ [f] }

/-- **A RAM file is opened** at its start. -/
theorem openFile_names (h : Names rounds s path i relative p x)
    (hfree : s.kernel.vfs.freeFile = some j) :
    call rounds s (.openFile path) = some (.code .success, opened s j ⟨p, some i, 0, true⟩) := by
  have hopen (file : VfsFile) : ramfsVfsOpen relative file s.kernel.stores =
      some ((.success, { file with fsHandle := p, position := 0, inUse := true }),
        s.kernel.stores) := by
    have hfind : fsFindByPath s.kernel.stores.ramfs relative = some p := h.found
    have hnode : s.kernel.stores.ramfs.nodes p = some x := h.node
    rw [ramfsVfsOpen, bind_run, onRamfs, hfind]
    simp only [Option.map_some, Option.bind_some, if_neg h.notNull, bind_run, loadNode, hnode,
      h.file, ne_eq, not_true_eq_false, if_false]
    rfl
  change (vfsOpen rounds path s.kernel).map _ = _
  rw [vfsOpen, bind_run, vfsLookup_ok h.resolves]
  simp only [Option.bind_some, bind_run, get_run, hfree, onStores]
  rw [show Ops.openFile .ramfs = ramfsVfsOpen from rfl, hopen]
  rfl

theorem place_opened (h : Names rounds s path i relative p x) :
    (opened s j ⟨p, some i, 0, true⟩).handlePlace s.handles.length = some (p, x, 0) := by
  have hl : Leads (opened s j ⟨p, some i, 0, true⟩).kernel ⟨p, some i, 0, true⟩ x :=
    ⟨h.resolves.ops, h.notNull, h.node⟩
  exact handlePlace_of_leads (List.getElem?_concat_length) hl

theorem openFile_finds (hres : Resolves rounds s.kernel.vfs path i .ramfs relative)
    (h : call rounds s (.openFile path) = some (.code .success, u)) :
    ∃ p x j, Names rounds s path i relative p x ∧ s.kernel.vfs.freeFile = some j ∧
      u = opened s j ⟨p, some i, 0, true⟩ := by
  obtain ⟨⟨⟨code, handle⟩, k⟩, hk, hr⟩ := Option.map_eq_some_iff.mp h
  obtain ⟨-, ⟨f, rfl, rfl, hopened⟩ | ⟨-, hrefused⟩⟩ := vfsOpen_cases hk
  · obtain ⟨j, hj, -⟩ := hopened.entry
    obtain ⟨i', ops, relative', hres', -, hnode⟩ := hopened.slot
    obtain ⟨rfl, rfl⟩ :=
      Prod.mk.inj (Option.some.inj (Option.some.inj (hres.slot.symm.trans hres'.slot)))
    obtain rfl := Option.some.inj (hres.ops.symm.trans hres'.ops)
    obtain ⟨hfound, hnull, x, hx, htype⟩ := hnode rfl
    have hnames : Names rounds s path i relative f.fsHandle x := ⟨hres, hfound, hnull, hx, htype⟩
    refine ⟨f.fsHandle, x, j, hnames, hj, ?_⟩
    exact (Prod.mk.inj (Option.some.inj (h.symm.trans (openFile_names hnames hj)))).2
  · cases hr
    exact absurd rfl hrefused.failed

/-- An open that succeeds gives a handle at the start of a RAM file, or one for a file of
another file system. -/
theorem openFile_success (h : call rounds s (.openFile path) = some (.code .success, u)) :
    (∃ i relative p x j, Names rounds s path i relative p x ∧ s.kernel.vfs.freeFile = some j ∧
        u = opened s j ⟨p, some i, 0, true⟩) ∨
      ∃ v f, Holds v s.handles.length f u ∧ reached v f ≠ some .ramfs := by
  obtain ⟨⟨⟨code, handle⟩, k⟩, hk, hr⟩ := Option.map_eq_some_iff.mp h
  obtain ⟨-, ⟨f, rfl, rfl, hopened⟩ | ⟨-, hrefused⟩⟩ := vfsOpen_cases hk
  · obtain ⟨j, hj, hvfs⟩ := hopened.entry
    obtain ⟨i, ops, relative, hres, hmount, -⟩ := hopened.slot
    cases ops with
    | ramfs =>
      obtain ⟨p, x, j, hnames, hj, hu⟩ := openFile_finds hres h
      exact .inl ⟨i, relative, p, x, j, hnames, hj, hu⟩
    | fat32 =>
      cases hr
      refine .inr ⟨_, f, ⟨hvfs, f, List.getElem?_concat_length, .refl f⟩, fun hreached => ?_⟩
      obtain ⟨-, l, hl, hops⟩ := reached_eq_some.mp hreached
      rw [hmount] at hl
      rw [← Option.some.inj hl] at hops
      cases hres.ops.symm.trans hops
  · cases hr
    exact absurd rfl hrefused.failed

theorem place_none {v : VfsTables} (hs : Holds v n f s) (hother : reached v f ≠ some .ramfs) :
    s.handlePlace n = none := by
  rw [Option.eq_none_iff_forall_not_mem]
  rintro ⟨p, x, c⟩ hplace
  obtain ⟨f', hf', -, -, hl⟩ := handlePlace_leads hplace
  obtain ⟨f'', hf'', hmoved⟩ := hs.handle
  obtain rfl := Option.some.inj (hf'.symm.trans hf'')
  refine hother ?_
  have hreached := hl.reached
  rw [hs.vfs, reached, hmoved.inUse, show f'.mount = f.mount from
    congrArg Prod.snd hmoved.handleOf] at hreached
  exact hreached

/-! ## Writing -/

/-- What a write to the file `p` leaves: the tree, and the bytes of `line` at the place. -/
structure Written (s u : Sys) (p : Ptr) (c : Nat) (line : List UInt8) : Prop where
  fits : ∃ bs, Fits u bs
  alike : Alike s.ramfs u.ramfs
  bytes : contents u = Function.update (contents s) p (overwrite (contents s p) c line)

/-- The answer of a write and what it leaves; the handle is behind the bytes then. -/
theorem write_written (hf : Fits s bs) (h : s.handlePlace n = some (p, x, c)) (hle : c ≤ x.size)
    {src : List UInt8} (hlt : c + src.length < 2 ^ 31)
    (hcall : call rounds s (.write n src) = some (r, u)) :
    (r = .count none ∧ u = s) ∨ (r = .count (some src.length) ∧ Written s u p c src ∧
      ∃ y, u.handlePlace n = some (p, y, c + src.length) ∧ c + src.length ≤ y.size) := by
  have hx : s.ramfs.nodes p = some x := place_node (show s.place (.write n src) = _ from h)
  obtain ⟨-, -, hfail⟩ | ⟨d, m, o, w, bs', hdone, hw, -, hf', hbytes⟩ := write_overwrites hf rounds
    (show source (.write n src) = some src from rfl) h (by omega) hle
  · cases hfail.symm.trans hcall
    exact .inl ⟨rfl, rfl⟩
  cases hdone.symm.trans hcall
  refine .inr ⟨rfl, ⟨⟨bs', hf'⟩, ?_, hbytes⟩, { x with
    data := d, size := max x.size (c + src.length) }, ?_, Nat.le_max_right _ _⟩
  · rw [hw]
    exact alike_rewrite hx _ _
  · obtain ⟨f, hn, rfl, rfl, hl⟩ := handlePlace_leads h
    have hn' : u.handles[n]? = some { f with position := f.position + src.length } := by
      rw [hw]
      change (s.handles.modify n (advance · (some src.length)))[n]? = _
      rw [set_advance h (by omega) hn]
      exact List.getElem?_set_self (handlePlace_lt h)
    refine handlePlace_of_leads hn' ⟨?_, hl.notNull, ?_⟩
    · rw [hw]
      exact hl.reached
    · rw [hw]
      exact FsState.store_self ..


/-! ## The invariant -/

/-- What holds between the lines. -/
structure Good (s : Sys) : Prop where
  fits : ∃ bs, Fits s bs
  rooted : Rooted (plain s)

theorem Good.call (hs : Good s) (act : Act) (hact : Mild s act)
    (h : call (fuel + 1) s act = some (r, u)) : Good u := by
  obtain ⟨bs, hf⟩ := hs.fits
  exact ⟨call_fits hf hact.tame h, call_rooted hf hact h hs.rooted⟩

theorem Good.withAbsolute {body : CStr → Option (CStr × Sys)} (hs : Good s)
    (hbody : ∀ path, Good s → body path = some (out, u) → Good u)
    (h : withAbsolute s path body = some (out, u)) : Good u :=
  hbody _ hs (Option.ite_none_right_eq_some.mp h).2

theorem Good.withPath {usage : String} {body : CStr → CStr → Option (CStr × Sys)} (hs : Good s)
    (hbody : ∀ args path, Good s → body args path = some (out, u) → Good u)
    (h : withPath s usage args body = some (out, u)) : Good u := by
  unfold Commands.withPath at h
  split at h
  · cases h
    exact hs
  · exact hs.withAbsolute (hbody _) h

theorem Good.onPath {usage failed before after : String} (act : CStr → Act)
    (hact : ∀ path, Mild s (act path)) (hs : Good s)
    (h : cmdOnPath usage act failed before after (fuel + 1) s args = some (out, u)) : Good u := by
  refine hs.withPath (fun args path hs h => ?_) h
  obtain ⟨⟨answer, t⟩, ht, h⟩ := Option.bind_eq_some_iff.mp h
  have hgood := hs.call (act path) (hact path) ht
  dsimp only at h
  split at h
  · cases h
    exact hgood
  · cases h
    exact hgood

/-! ### `cd` -/

theorem fat32_keeps {α : Type} (m : Fat32.Volume.Fat α) :
    Keeps (fun s : Stores => (s.ramfs, s.memory)) (onFat32 m) := by
  intro s a s' h
  obtain ⟨r, -, hr⟩ := Option.map_eq_some_iff.mp h
  cases hr
  rfl

theorem statOf_keeps (ops : Ops) (relative : CStr) :
    Keeps (fun s : Stores => (s.ramfs, s.memory)) (statOf ops relative) := by
  cases ops with
  | ramfs =>
    refine .bind (fun s node s' h => ?_) fun node => .ite (fun _ => .pure _) fun _ =>
      .bind (fun s y s' h => ?_) fun y => .pure _
    · obtain ⟨r, hr, hs'⟩ := Option.map_eq_some_iff.mp h
      obtain ⟨p, -, hp⟩ := Option.map_eq_some_iff.mp hr
      cases hp
      cases hs'
      rfl
    · rw [(loadNode_spec h).1]
  | fat32 =>
    exact .bind_option (fat32_keeps _) (.pure _) fun found =>
      .ite (fun _ => .pure _) fun _ => .pure _

theorem vfsStat_keeps {k k' : Kernel} {code : Code} {info : Option Dirent}
    (h : vfsStat rounds path k = some ((code, info), k')) : k'.vfs = k.vfs ∧
      k'.stores.ramfs = k.stores.ramfs ∧ k'.stores.memory = k.stores.memory := by
  obtain ⟨⟨found, t⟩, ht, h⟩ := Option.bind_eq_some_iff.mp h
  obtain ⟨rfl, ⟨i, ops, relative, rfl, -⟩ | ⟨code, rfl, -⟩⟩ := vfsLookup_cases ht
  · obtain ⟨hvfs, hstat⟩ := onStores_spec h
    obtain ⟨hram, hmemory⟩ := Prod.mk.inj (statOf_keeps ops relative _ _ _ hstat)
    exact ⟨hvfs, hram, hmemory⟩
  · cases h
    exact ⟨rfl, rfl, rfl⟩

theorem vfsChdir_keeps {k k' : Kernel} {code : Code}
    (hcwd : Canonical k.vfs.currentWorkingDirectory)
    (h : Commands.vfsChdir rounds path k = some (code, k')) : k'.stores = k.stores ∧
      Canonical k'.vfs.currentWorkingDirectory := by
  unfold Commands.vfsChdir at h
  split at h
  · cases h
    exact ⟨rfl, hcwd⟩
  obtain ⟨found, -, h⟩ := Option.bind_eq_some_iff.mp h
  cases found with
  | none =>
    cases h
    exact ⟨rfl, hcwd⟩
  | some found =>
    obtain ⟨hlt, h⟩ := Option.ite_none_right_eq_some.mp h
    obtain ⟨normalized, hnormalized, hr⟩ := Option.map_eq_some_iff.mp h
    cases hr
    refine ⟨rfl, canonical_normalize hcwd ?_ hnormalized⟩
    have habsolute : workingPath k.vfs.currentWorkingDirectory
        (workingPath k.vfs.currentWorkingDirectory path) =
        workingPath k.vfs.currentWorkingDirectory path := if_pos (head_workingPath hcwd path)
    rw [fitsBuffers, habsolute, decide_eq_true hlt, Bool.or_true]

theorem Good.cd (hs : Good s) (h : cmdCd (fuel + 1) s args = some (out, u)) : Good u := by
  refine hs.withPath (fun args path hs h => ?_) h
  obtain ⟨⟨⟨code, info⟩, k⟩, hstat, h⟩ := Option.bind_eq_some_iff.mp h
  obtain ⟨hvfs, hram, hmemory⟩ := vfsStat_keeps hstat
  obtain ⟨bs, hf⟩ := hs.fits
  have hkernel {k' : Kernel} (hram' : k'.stores.ramfs = s.ramfs)
      (hmemory' : k'.stores.memory = s.memory) (hcwd : Canonical k'.vfs.currentWorkingDirectory) :
      Good { s with kernel := k' } := by
    refine ⟨⟨bs, ?_, ?_⟩, hcwd, ?_⟩
    · change Blocks ⟨k'.stores.memory, s.freeList⟩ bs
      rw [hmemory']
      exact hf.blocks
    · change Owned s.owner s.arrays (held k'.stores.ramfs) bs
      rw [hram']
      exact hf.owned
    · change Sound k'.stores.ramfs
      rw [hram']
      exact hs.rooted.sound
  have hstay : Good { s with kernel := k } :=
    hkernel hram hmemory (by rw [hvfs]; exact hs.rooted.cwd)
  dsimp only at h
  split at h
  · cases h
    exact hstay
  split at h
  · cases h
    exact hstay
  obtain ⟨⟨code', k'⟩, hchdir, h⟩ := Option.bind_eq_some_iff.mp h
  obtain ⟨hstores, hcwd⟩ := vfsChdir_keeps hstay.rooted.cwd hchdir
  have hmoved : Good { s with kernel := k' } :=
    hkernel (by rw [hstores]; exact hram) (by rw [hstores]; exact hmemory) hcwd
  dsimp only at h
  split at h
  · cases h
    exact hmoved
  · cases h
    exact hmoved

/-! ### `cat` and `echo` -/

theorem Good.catLoop : ∀ {chunks : Nat} {s u : Sys} {out : CStr}, Good s →
    catLoop (fuel + 1) n chunks s = some (out, u) → Good u := by
  intro chunks
  induction chunks with
  | zero =>
    intro s u out hs h
    cases h
  | succ chunks ih =>
    intro s u out hs h
    obtain ⟨⟨answer, t⟩, ht, h⟩ := Option.bind_eq_some_iff.mp h
    have hgood : Good t := hs.call (.read n 255) trivial ht
    dsimp only at h
    split at h
    · obtain ⟨⟨text, w⟩, hw, h⟩ := Option.bind_eq_some_iff.mp h
      cases h
      exact ih hgood hw
    · cases h
      exact hgood

theorem Good.cat (hs : Good s) (h : cmdCat (fuel + 1) s args = some (out, u)) : Good u := by
  refine hs.withPath (fun args path hs h => ?_) h
  obtain ⟨⟨answer, t⟩, hopen, h⟩ := Option.bind_eq_some_iff.mp h
  have hgood : Good t := hs.call (.openFile path) trivial hopen
  dsimp only at h
  split at h
  · cases h
    exact hgood
  obtain ⟨⟨text, w⟩, hloop, h⟩ := Option.bind_eq_some_iff.mp h
  obtain ⟨⟨answer', w'⟩, hclose, h⟩ := Option.bind_eq_some_iff.mp h
  cases h
  exact (hgood.catLoop hloop).call (.close s.handles.length) trivial hclose

/-- The handle is at the start of a RAM file, or for a file of another file system. -/
def AtStart (s : Sys) (n : Nat) : Prop :=
  (∃ p x, s.handlePlace n = some (p, x, 0)) ∨ ∃ v f, Holds v n f s ∧ reached v f ≠ some .ramfs

theorem mild_write_none {src : List UInt8} (h : s.handlePlace n = none) :
    Mild s (.write n src) := fun r hr => by rw [h] at hr; cases hr

theorem mild_write_at {src : List UInt8} (h : s.handlePlace n = some (p, x, c))
    (hlt : c + src.length < 2 ^ 31) : Mild s (.write n src) := fun r hr => by
  rw [h] at hr
  cases hr
  change c + src.length ≤ _
  omega

theorem Good.echoTo (hs : Good s) (hlt : text.length + 1 < 2 ^ 31) (hstart : AtStart s n)
    (h : echoTo (fuel + 1) n text filename s = some (out, u)) : Good u := by
  obtain ⟨⟨answer, t⟩, ht, h⟩ := Option.bind_eq_some_iff.mp h
  have hwrites : Mild s (.write n text) ∧ (∀ written, answer = .count (some written) →
      Mild t (.write n [newline])) := by
    obtain ⟨p, x, hplace⟩ | ⟨v, f, hholds, hother⟩ := hstart
    · refine ⟨mild_write_at hplace (by omega), fun written hanswer => ?_⟩
      obtain ⟨bs, hf⟩ := hs.fits
      obtain ⟨hnone, -⟩ | ⟨-, -, y, hbehind, -⟩ :=
        write_written hf hplace (Nat.zero_le _) (by omega) ht
      · cases hanswer.symm.trans hnone
      · exact mild_write_at hbehind (by rw [List.length_singleton]; omega)
    · exact ⟨mild_write_none (place_none hholds hother), fun _ _ =>
        mild_write_none (place_none (hholds.write ht) hother)⟩
  have hgood := hs.call _ hwrites.1 ht
  dsimp only at h
  split at h
  · obtain ⟨⟨answer', w⟩, hw, h⟩ := Option.bind_eq_some_iff.mp h
    cases h
    exact hgood.call _ (hwrites.2 _ rfl) hw
  · cases h
    exact hgood

theorem atStart_open (h : call rounds s (.openFile path) = some (.code .success, u)) :
    AtStart u s.handles.length := by
  obtain ⟨i, relative, p, x, j, hnames, -, rfl⟩ | hother := openFile_success h
  · exact .inl ⟨p, x, place_opened hnames⟩
  · exact .inr hother

theorem Good.echoInto (hs : Good s) (hlt : text.length + 1 < 2 ^ 31)
    (h : echoInto (fuel + 1) s text filename = some (out, u)) : Good u := by
  unfold Commands.echoInto at h
  split at h
  · cases h
    exact hs
  refine hs.withAbsolute (fun path hs h => ?_) h
  obtain ⟨⟨answer, t⟩, hcreate, h⟩ := Option.bind_eq_some_iff.mp h
  obtain ⟨⟨answer', w⟩, hopen, h⟩ := Option.bind_eq_some_iff.mp h
  have hcreated : Good t := hs.call (.create path) trivial hcreate
  have hopened : Good w := hcreated.call (.openFile path) trivial hopen
  dsimp only at h
  split at h
  · cases h
    exact hopened
  rename_i hcode
  obtain rfl := not_not.mp hcode
  obtain ⟨⟨out', y⟩, hecho, h⟩ := Option.bind_eq_some_iff.mp h
  obtain ⟨⟨answer'', z⟩, hclose, h⟩ := Option.bind_eq_some_iff.mp h
  cases h
  exact (hopened.echoTo hlt (atStart_open hopen) hecho).call (.close t.handles.length)
    trivial hclose

theorem length_trimEnd (text : CStr) : (trimEnd text).length ≤ text.length := by
  cases text with
  | nil => exact Nat.le_refl _
  | cons c text => exact Nat.succ_le_succ (List.rdropWhile_prefix _ _).length_le

theorem Good.echo (hs : Good s) (hargs : ∀ a ∈ args, a.length < 2 ^ 31 - 1)
    (h : cmdEcho (fuel + 1) s args = some (out, u)) : Good u := by
  unfold cmdEcho at h
  split at h
  · cases h
    exact hs
  rename_i a ha
  split at h
  · cases h
    exact hs
  · rename_i k hk
    have hlength := length_trimEnd (a.take k)
    have hlt := hargs a (Option.filter_eq_some_iff.mp ha).1
    rw [List.length_take] at hlength
    exact hs.echoInto (by omega) h

/-! ### Lines -/

theorem Good.mount (hs : Good s) (h : cmdMount (fuel + 1) s args = some (out, u)) : Good u := by
  unfold cmdMount at h
  split at h
  · cases h
    exact hs
  split at h
  · obtain ⟨⟨answer, t⟩, ht, h⟩ := Option.bind_eq_some_iff.mp h
    have hgood : Good t := hs.call (.mountFat32 fat32Mountpoint 0) trivial ht
    dsimp only at h
    split at h
    · cases h
      exact hgood
    · cases h
      exact hgood
  · cases h
    exact hs

theorem Good.umount (hs : Good s) (h : cmdUmount (fuel + 1) s args = some (out, u)) : Good u := by
  unfold cmdUmount at h
  split at h
  · cases h
    exact hs
  rename_i a ha
  obtain ⟨⟨answer, t⟩, ht, h⟩ := Option.bind_eq_some_iff.mp h
  have hgood : Good t := hs.call (.unmount a) trivial ht
  dsimp only at h
  split at h
  · cases h
    exact hgood
  · cases h
    exact hgood

theorem length_strtok (delim last : CStr) : (∀ w ∈ (strtok delim last).1, w.length ≤ last.length) ∧
    (strtok delim last).2.length ≤ last.length := by
  have hstart := (List.dropWhile_suffix (l := last) fun c => delim.contains c).length_le
  rw [strtok]
  split
  · exact ⟨nofun, Nat.zero_le _⟩
  · refine ⟨fun w hw => ?_, ?_⟩
    · obtain rfl := Option.some.inj hw
      exact ((List.takeWhile_prefix _).length_le).trans hstart
    · have hrest := (List.dropWhile_suffix
        (l := last.dropWhile fun c => delim.contains c) fun c => !delim.contains c).length_le
      rw [List.length_tail]
      omega

theorem length_args (cmd : CStr) : ∀ a ∈ (splitCommand cmd).2, a.length ≤ 255 := by
  intro a ha
  have hrest := (length_strtok [space] (cmd.take (Shell.Model.bufferSize - 1))).2
  have hargs := (length_strtok [] _).1 a ha
  have hline : (cmd.take (Shell.Model.bufferSize - 1)).length ≤ 255 := List.length_take_le _ _
  omega

/-- **A line keeps the invariant.** -/
theorem Good.line {cmd : CStr} (hs : Good s)
    (h : processCommand (fuel + 1) s cmd = some (out, u)) : Good u := by
  unfold processCommand at h
  split at h
  · cases h
    exact hs
  rename_i name args hsplit
  have hargs : ∀ a ∈ args, a.length ≤ 255 := by
    have hlength := length_args cmd
    rw [hsplit] at hlength
    exact hlength
  obtain ⟨⟨name', command⟩, -, hrun⟩ := Option.bind_eq_some_iff.mp h
  cases command with
  | cd => exact hs.cd hrun
  | cat => exact hs.cat hrun
  | touch => exact Good.onPath .create (fun _ => trivial) hs hrun
  | mkdir => exact Good.onPath .mkdir (fun _ => trivial) hs hrun
  | rm => exact Good.onPath .remove (fun _ => trivial) hs hrun
  | rmdir => exact Good.onPath .rmdir (fun _ => trivial) hs hrun
  | echo => exact hs.echo (fun a ha => (hargs a ha).trans_lt (by decide)) hrun
  | pwd =>
    cases hrun
    exact hs
  | mount => exact hs.mount hrun
  | umount => exact hs.umount hrun

/-! ## Sessions -/

/-- What other code may do in a session. -/
def Allowed (s : Sys) : Event → Prop
  | .other act => Mild s act
  | .line _ => True

/-- After `fs_init` and `vfs_init`. -/
def Booted (s : Sys) : Prop :=
  ∃ rounds w m r, call rounds (start vfsInit w m) .init = some (r, s)

theorem good_booted (h : Booted s) : Good s := by
  obtain ⟨rounds, w, m, r, h⟩ := h
  have hfits := call_fits (fits_start _ w m) (show Tame _ .init from trivial) h
  obtain ⟨⟨a, t⟩, ht, h⟩ := Option.bind_eq_some_iff.mp h
  obtain ⟨hnode, h⟩ := Option.ite_none_left_eq_some.mp h
  have hram := (alters_blocksFor ht).ramfs
  have hvfs : t.kernel.vfs = vfsInit := blocksFor_vfs ht
  obtain ⟨⟨b, k⟩, hk, hr⟩ := Option.map_eq_some_iff.mp h
  obtain ⟨hvfs', hstores⟩ := onStores_spec hk
  obtain ⟨⟨b', ramfs⟩, hcreate, hr'⟩ := Option.map_eq_some_iff.mp hstores
  cases hr
  refine ⟨hfits, ?_, ?_⟩
  · change Canonical k.vfs.currentWorkingDirectory
    rw [hvfs', hvfs]
    exact canonical_joinPath (fun _ hc => nomatch hc : PlainWords [])
  · have hinit : ramfs = fsInit a := by
      rw [show t.kernel.stores.ramfs = _ from hram] at hcreate
      obtain ⟨-, hcreated⟩ := Prod.mk.inj (Option.some.inj hcreate)
      rw [← hcreated, fsInit]
      simp only [fsCreateNode, if_neg hnode]
      rfl
    have hk' : k.stores.ramfs = ramfs := (congrArg (fun r => r.2.ramfs) hr').symm
    change Sound k.stores.ramfs
    rw [hk', hinit]
    exact sound_fsInit hnode

theorem Good.step (hs : Good s) (event : Event) (hevent : Allowed s event)
    (h : step (fuel + 1) s event = some u) : Good u := by
  cases event with
  | other act =>
    obtain ⟨⟨answer, t⟩, ht, rfl⟩ := Option.map_eq_some_iff.mp h
    exact hs.call _ hevent ht
  | line cmd =>
    obtain ⟨⟨out, t⟩, ht, rfl⟩ := Option.map_eq_some_iff.mp h
    exact hs.line ht

/-- **In every state of a session** the invariant holds. -/
theorem good_visited (hs : Booted s) {events : List Event}
    (hevents : Heeded (step (fuel + 1)) Allowed events s) :
    ∀ t ∈ visited (step (fuel + 1)) events s, Good t :=
  inv_visited (fun _ event _ hs hevent h => hs.step event hevent h) events (good_booted hs) hevents

end ContinuumOS.Shell.Sessions
