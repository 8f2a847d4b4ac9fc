import ContinuumOS.Ramfs.Creation
import ContinuumOS.Shell.Sessions

/-! # A line written to a file and printed again

`echo` with a `>` and `cat` on a file of the RAM file system, over the heap: what the
one writes the other prints. The file that the path names is the one that it named
before, if there was one, and every other file keeps its bytes. -/
namespace ContinuumOS.Shell.Redirection
open ContinuumOS.Lib.Blocks ContinuumOS.Lib.Cursors ContinuumOS.Lib.Runs
open ContinuumOS.Lib.Effect ContinuumOS.Libc.String ContinuumOS.Libc.Printf
open ContinuumOS.Heap.Layout ContinuumOS.Ramfs.Nodes ContinuumOS.Ramfs.Holdings
open ContinuumOS.Ramfs.Backing
open ContinuumOS.Ramfs.Soundness ContinuumOS.Ramfs.Creation
open ContinuumOS.Vfs.Path ContinuumOS.Vfs.Adapters
open ContinuumOS.Vfs.Files ContinuumOS.Vfs.Calls ContinuumOS.Vfs.Transfers
open ContinuumOS.Vfs.OnHeap ContinuumOS.Vfs.AnyBytes ContinuumOS.Vfs.Quiet
open ContinuumOS.Vfs.Writing ContinuumOS.Vfs.SharedFiles
open ContinuumOS.Vfs.RamfsCalls ContinuumOS.Vfs.Simulation ContinuumOS.Shell.Commands
open ContinuumOS.Shell.Sessions
open ContinuumOS.TextEditor.Model (ascii)

/-! ## What `cat` shows -/

/-- So many chunks of a file, each as far as its first NUL. -/
def shownIn : Nat → List UInt8 → CStr
  | 0, _ => []
  | chunks + 1, bytes => shownChunk (bytes.take 255) ++ shownIn chunks (bytes.drop 255)

/-- What `cat` shows of a file. -/
def shown (bytes : List UInt8) : CStr := shownIn bytes.length bytes

theorem shownIn_nil (chunks : Nat) : shownIn chunks [] = [] := by
  induction chunks with
  | zero => rfl
  | succ chunks ih =>
    rw [shownIn, List.take_nil, List.drop_nil, ih]
    rfl

theorem shownIn_of_le {bytes : List UInt8} {chunks more : Nat} (h : bytes.length ≤ 255 * chunks)
    (hle : chunks ≤ more) : shownIn more bytes = shownIn chunks bytes := by
  induction chunks generalizing bytes more with
  | zero =>
    obtain rfl : bytes = [] := List.length_eq_zero_iff.mp (by omega)
    exact shownIn_nil more
  | succ chunks ih =>
    obtain ⟨more, rfl⟩ : ∃ m, more = m + 1 := ⟨more - 1, by omega⟩
    rw [shownIn, shownIn, ih (by rw [List.length_drop]; omega) (by omega)]

theorem shown_eq_shownIn {bytes : List UInt8} {chunks : Nat} (h : bytes.length ≤ 255 * chunks) :
    shownIn chunks bytes = shown bytes := by
  rw [shown]
  rcases Nat.le_total chunks bytes.length with hle | hle
  · exact (shownIn_of_le h hle).symm
  · exact shownIn_of_le (by omega) hle

/-! ## Files through a call -/

variable {rounds n i j c : Nat} {s t u : Sys} {bs : List Block} {act : Act} {r : Answer}
  {path relative out text filename : CStr} {p q : Ptr} {x : FSNode} {f : VfsFile}

/-- The files that are there in `u` have the bytes that `bytes` gives. -/
def Reads (u : Sys) (bytes : Ptr → List UInt8) : Prop :=
  ∀ q, (u.ramfs.nodes q).isSome = true → contents u q = bytes q

theorem contents_eq_nil {d : Ptr} (h : held u.ramfs q = some (d, 0)) : contents u q = [] := by
  rw [contents, h]
  rfl

theorem contents_of_none (h : held u.ramfs q = none) : contents u q = [] := by
  rw [contents, h]

/-- A call that reads and writes no RAM file leaves the bytes of every file that is
there after it. -/
theorem still_reads (hf : Fits s bs) (act : Act) (hstill : Still s act)
    (h : call rounds s act = some (r, u)) : (∃ bs', Fits u bs') ∧ Reads u (contents s) := by
  obtain ⟨bs', hf', hgrows, hbelow, hany⟩ := still_uniform hf hstill hf r u h
  refine ⟨⟨bs', hf'⟩, fun q hq => ?_⟩
  obtain ⟨m, hm, -, hsame⟩ := hany s.memory hf.blocks
  have hu : u = onBytes u m := (Prod.mk.inj (Option.some.inj (h.symm.trans hm))).2
  have hmem : u.memory = m := congrArg Sys.memory hu
  obtain ⟨y, hy⟩ := Option.isSome_iff_exists.mp hq
  have hg := held_of_node hy
  obtain hold | hempty := hbelow q _ hg
  · rw [contents, contents, hg, hold]
    exact bytesAt_congr fun i hi => by rw [hmem]; exact hsame q _ hg i hi
  · have hempty' : y.size = 0 := hempty
    rw [hempty'] at hg
    rw [contents_eq_nil hg]
    obtain hold | hnone := hgrows q _ hg
    · exact (contents_eq_nil hold).symm
    · exact (contents_of_none hnone).symm

/-! ## Printing -/

/-- The system after reads moved the handle. -/
def movedTo (s : Sys) (n : Nat) (c : Nat) : Sys :=
  { s with handles := s.handles.modify n fun f => { f with position := c } }

theorem place_movedTo {c' : Nat} (h : s.handlePlace n = some (p, x, c)) :
    (movedTo s n c').handlePlace n = some (p, x, c') := by
  obtain ⟨f, hn, rfl, rfl, hl⟩ := handlePlace_leads h
  have hn' : (movedTo s n c').handles[n]? = some { f with position := c' } := by
    change (s.handles.modify n _)[n]? = _
    rw [List.getElem?_modify_eq, hn]
    rfl
  exact handlePlace_of_leads hn' ⟨hl.reached, hl.notNull, hl.node⟩

theorem read_chunk (rounds : Nat) (hf : Fits s bs) (h : s.handlePlace n = some (p, x, c))
    (hle : c ≤ x.size) :
    x.data = 0 ∧ call rounds s (.read n 255) = some (.bytes none, s) ∨
      call rounds s (.read n 255) = some (.bytes (some (((contents s p).drop c).take 255)),
        movedTo s n (c + min 255 (x.size - c))) := by
  have hx : s.ramfs.nodes p = some x := place_node (show s.place (.read n 255) = _ from h)
  have hsize := size_lt hf hx
  have hread := read_handle rounds h 255
  split at hread
  · rename_i h0
    exact .inl ⟨h0, hread⟩
  refine .inr (hread.trans ?_)
  have hgot : ((contents s p).drop c).take 255 = fetched s.memory x c 255 := by
    rw [contents_of_node hx, bytesAt_drop_take _ _ hle, fetched]
  rw [hgot]
  congr 2
  obtain ⟨f, hn, -, rfl, -⟩ := handlePlace_leads h
  have hhandles : readHandles s n x f.position 255 =
      s.handles.modify n fun f' =>
        { f' with position := f.position + min 255 (x.size - f.position) } := by
    rw [← set_eq_modify hn (fun f' =>
        { f' with position := f.position + min 255 (x.size - f.position) }),
      readHandles]
    split
    · rename_i hend
      rw [Nat.sub_eq_zero_of_le hend, Nat.min_zero, Nat.add_zero]
      exact (set_self hn).symm
    · exact set_advance h (by omega) hn
  rw [movedTo, ← hhandles]

/-- The loop of `cat` prints the file from the place on; only the handle moves. -/
theorem catLoop_prints (rounds : Nat) {chunks : Nat} (hf : Fits s bs)
    (h : s.handlePlace n = some (p, x, c)) (hle : c ≤ x.size)
    (hlen : ((contents s p).drop c).length ≤ 255 * chunks) :
    ∃ handles, catLoop rounds n (chunks + 1) s =
      some (shownIn chunks ((contents s p).drop c), { s with handles }) := by
  induction chunks generalizing s c with
  | zero =>
    have hend : (contents s p).drop c = [] := List.length_eq_zero_iff.mp (by omega)
    obtain ⟨-, hread⟩ | hread := read_chunk rounds hf h hle
    · refine ⟨s.handles, ?_⟩
      simp only [catLoop, hread]
      rfl
    · rw [hend] at hread ⊢
      refine ⟨(movedTo s n (c + min 255 (x.size - c))).handles, ?_⟩
      simp only [catLoop, hread]
      rfl
  | succ chunks ih =>
    have hx : s.ramfs.nodes p = some x := place_node (show s.place (.read n 255) = _ from h)
    obtain ⟨h0, hread⟩ | hread := read_chunk rounds hf h hle
    · -- a file without a buffer is empty
      have hempty : x.size = 0 := hf.owned.empty _ _ (held_of_node hx) h0
      have hnil : contents s p = [] := contents_eq_nil (hempty ▸ held_of_node hx)
      refine ⟨s.handles, ?_⟩
      rw [hnil, List.drop_nil, shownIn_nil, catLoop, hread]
      rfl
    · set c' := c + min 255 (x.size - c) with hc'
      have hlength : (contents s p).length = x.size := by
        rw [contents_of_node hx, length_bytesAt]
      have hrest : (contents s p).drop c' = ((contents s p).drop c).drop 255 := by
        rw [List.drop_drop]
        rcases Nat.le_total 255 (x.size - c) with hmin | hmin
        · rw [hc', Nat.min_eq_left hmin]
        · rw [hc', Nat.min_eq_right hmin, List.drop_of_length_le (by omega),
            List.drop_of_length_le (by omega)]
      cases hchunk : ((contents s p).drop c).take 255 with
      | nil =>
        have hnil : (contents s p).drop c = [] :=
          (List.take_eq_nil_iff.mp hchunk).resolve_left (by decide)
        rw [hchunk] at hread
        refine ⟨(movedTo s n c').handles, ?_⟩
        rw [hnil, shownIn_nil, catLoop, hread]
        rfl
      | cons b bytes =>
        rw [hchunk] at hread
        have hle' : c' ≤ x.size := by omega
        have hlen' : ((contents (movedTo s n c') p).drop c').length ≤ 255 * chunks := by
          change ((contents s p).drop c').length ≤ _
          rw [hrest, List.length_drop]
          omega
        obtain ⟨handles, hloop⟩ := ih (s := movedTo s n c') ⟨hf.blocks, hf.owned⟩
          (place_movedTo h) hle' hlen'
        refine ⟨handles, ?_⟩
        rw [catLoop, hread]
        simp only [Option.bind_eq_bind, Option.bind_some, hloop]
        rw [shownIn, hchunk, ← hrest]
        rfl

theorem close_returns (rounds n : Nat) (s : Sys) :
    ∃ u, call rounds s (.close n) = some (.nothing, u) ∧ u.ramfs = s.ramfs := by
  change ∃ u, s.runOn n (fun _ => Answer.nothing) (fun f => do return ((), ← vfsClose f)) = _ ∧ _
  rw [Sys.runOn]
  cases s.handles[n]? with
  | none => exact ⟨s, rfl, rfl⟩
  | some f =>
    obtain ⟨k, hk, hram, -⟩ := vfsClose_spec f s.kernel
    simp only [bind_run, hk]
    exact ⟨_, rfl, hram⟩

/-- **`cat` prints the file** that the path names. -/
theorem cat_prints {args : CStr} (hf : Fits s bs) (h : Names (rounds + 1) s path i relative p x)
    (hargs : args ≠ []) (hpath : workingPath s.kernel.vfs.currentWorkingDirectory args = path)
    (hlt : path.length < vfsMaxPath) (hfree : s.kernel.vfs.freeFile = some j)
    (hlen : (contents s p).length ≤ 255 * rounds) :
    ∃ u, cmdCat (rounds + 1) s (some args) = some (shown (contents s p) ++ [newline], u) := by
  set o := opened s j ⟨p, some i, 0, true⟩ with ho
  have hf' : Fits o bs := ⟨hf.blocks, hf.owned⟩
  obtain ⟨handles, hloop⟩ := catLoop_prints (rounds + 1) hf' (place_opened h)
    (Nat.zero_le _) (show _ ≤ 255 * rounds by rw [List.drop_zero]; exact hlen)
  obtain ⟨u, hclose, -⟩ := close_returns (rounds + 1) s.handles.length { o with handles }
  refine ⟨u, ?_⟩
  have hgiven : given (some args) = some args := by
    rw [given, Option.filter_some, if_pos (decide_eq_true hargs)]
  rw [cmdCat, withPath, hgiven]
  simp only [withAbsolute, hpath, if_pos hlt, openFile_names h hfree, ← ho, Option.bind_eq_bind,
    Option.bind_some, ne_eq, not_true_eq_false, if_false, hloop, hclose]
  rw [List.drop_zero, show contents o p = contents s p from rfl, shown_eq_shownIn hlen]
  rfl

/-! ## Writing -/

/-- **The writes of `echo`** put the text at the start of the file, and a newline behind
it if there is room. -/
theorem echoTo_written (hf : Fits s bs) (h : s.handlePlace n = some (p, x, 0))
    (hlt : text.length + 1 < 2 ^ 31) (hecho : echoTo rounds n text filename s = some (out, u)) :
    (out = ascii "echo: failed to write to '" ++ filename ++ ascii "'\n" ∧ u = s) ∨
      (out = ascii "echo: wrote " ++ formatUnsigned (text.length + 1) 10 false ++
          ascii " bytes to '" ++ filename ++ ascii "'\n" ∧
        ∃ line, (line = text ∨ line = text ++ [newline]) ∧ Written s u p 0 line) := by
  obtain ⟨⟨answer, t⟩, ht, hrest⟩ := Option.bind_eq_some_iff.mp hecho
  obtain ⟨rfl, rfl⟩ | ⟨rfl, hfirst, y, hplace, hle⟩ :=
    write_written hf h (Nat.zero_le _) (by omega) ht
  · cases hrest
    exact .inl ⟨rfl, rfl⟩
  obtain ⟨⟨answer', w⟩, hw, hrest⟩ := Option.bind_eq_some_iff.mp hrest
  cases hrest
  obtain ⟨bs', hf'⟩ := hfirst.fits
  refine .inr ⟨rfl, ?_⟩
  obtain ⟨-, rfl⟩ | ⟨-, hsecond, -⟩ :=
    write_written hf' hplace hle (by rw [Nat.zero_add]; exact hlt) hw
  · exact ⟨text, .inl rfl, hfirst⟩
  · refine ⟨text ++ [newline], .inr rfl, hsecond.fits, hfirst.alike.trans hsecond.alike, ?_⟩
    rw [hsecond.bytes, hfirst.bytes, Function.update_self, Function.update_idem,
      overwrite_overwrite (Nat.zero_le _)]

/-! ## The file of the path -/

theorem create_finds (hs : Good s)
    (hres : Resolves (rounds + 1) s.kernel.vfs path i .ramfs relative)
    (h : call (rounds + 1) s (.create path) = some (r, t))
    (hq : fsFindByPath s.ramfs relative = some q) (h0 : q ≠ 0) :
    fsFindByPath t.ramfs relative = some q := by
  obtain ⟨bs, hf⟩ := hs.fits
  obtain ⟨starts, -, h⟩ := Option.bind_eq_some_iff.mp h
  obtain ⟨⟨a, w⟩, hw, h⟩ := Option.bind_eq_some_iff.mp h
  obtain ⟨code, hrun, -⟩ := run_vfs h
  have hram := (alters_blocksFor hw).ramfs
  obtain hsame | ⟨i', ops, relative', hres', -, hop⟩ := onPath_cases hrun
  · rw [show t.ramfs = w.ramfs from congrArg (fun k : Kernel => k.stores.ramfs) hsame, hram]
    exact hq
  rw [blocksFor_vfs hw] at hres'
  obtain ⟨rfl, rfl⟩ :=
    Prod.mk.inj (Option.some.inj (Option.some.inj (hres.slot.symm.trans hres'.slot)))
  obtain rfl := Option.some.inj (hres.ops.symm.trans hres'.ops)
  obtain ⟨⟨y, ramfs⟩, htouch, hpair⟩ := Option.map_eq_some_iff.mp
    (Vfs.Runs.onRamfs_run (f := fun s => fsTouch s a relative)
      (g := fun node => .ofBool (node ≠ 0)) hop)
  obtain rfl : ramfs = t.ramfs := hpair
  rw [show w.kernel.stores.ramfs = s.ramfs from hram] at htouch
  have hfresh : Fresh a s.ramfs := hram ▸ fresh_of_mallocable (mallocable_blocksFor hf hw)
  have hcanonical := (Vfs.Resolution.resolve_some hs.rooted.cwd hres.slot).2
  have hback (s : FsState) : fsFindByPath (backedState s) relative = fsFindByPath s relative :=
    (alike_backedState s).fsFindByPath relative
  obtain ⟨hsame, -⟩ | ⟨p, name, y, hadds⟩ := touch_made hs.rooted.sound hfresh htouch
  · rw [← hback t.ramfs, hsame, hback]
    exact hq
  by_cases hroot : relative = rootStr
  · have hfind : ∀ t : FsState, fsFindByPath t relative = some t.root := fun t => by
      rw [fsFindByPath, if_neg (by rw [hroot]; decide), if_pos hroot]
    rw [hfind] at hq ⊢
    rw [← hq]
    exact congrArg some hadds.made.root
  · obtain ⟨-, hfind, hfind'⟩ := find_adds hadds hs.rooted.sound hcanonical hroot
    rw [hback] at hfind hfind'
    rw [hfind']
    cases hc : Ramfs.Folds.childNamed (backedState s.ramfs) p name with
    | none =>
      rw [show Ramfs.Folds.childNamed (backedState (plain s).kernel.stores.ramfs) p name = none
        from hc]
        at hfind
      exact absurd (Option.some.inj (hq.symm.trans hfind)) h0
    | some c =>
      rw [show Ramfs.Folds.childNamed (backedState (plain s).kernel.stores.ramfs) p name = some c from
        hc] at hfind ⊢
      exact hfind.symm.trans hq

theorem openFile_ramfs (h : call rounds s (.openFile path) = some (r, u)) : u.ramfs = s.ramfs := by
  obtain ⟨⟨⟨code, handle⟩, k⟩, hk, hr⟩ := Option.map_eq_some_iff.mp h
  cases hr
  exact (vfsOpen_cases hk).1

theorem freeFile_withoutEntry {v : VfsTables} (hfree : v.freeFile = some j)
    (hused : f.inUse = true) :
    (withoutEntry { v with openFiles := v.openFiles.set j f } f).freeFile.isSome = true := by
  obtain ⟨hj, -, -⟩ := List.findIdx?_eq_some_iff_getElem.mp hfree
  have hmem : f ∈ v.openFiles.set j f := List.mem_iff_getElem.mpr
    ⟨j, by rw [List.length_set]; exact hj, List.getElem_set_self _⟩
  obtain ⟨k, hk⟩ :
      ∃ k, VfsTables.entryOf { v with openFiles := v.openFiles.set j f } f = some k := by
    refine Option.isSome_iff_exists.mp
      (List.findIdx?_isSome.trans (List.any_eq_true.mpr ⟨f, hmem, ?_⟩))
    rw [hused, Bool.true_and, beq_self_eq_true]
  obtain ⟨hlt, -⟩ := List.findIdx?_eq_some_iff_getElem.mp hk
  rw [withoutEntry, hk]
  exact List.findIdx?_isSome.trans (List.any_eq_true.mpr ⟨.zero,
    List.mem_iff_getElem.mpr ⟨k, by rw [List.length_set]; exact hlt, List.getElem_set_self _⟩, rfl⟩)

/-- What `echo` prints when it wrote nothing. -/
def refusals (filename : CStr) : List CStr :=
  [ascii "echo: missing filename after >\n",
    ascii "echo: cannot write to '" ++ filename ++ ascii "'\n",
    ascii "echo: failed to write to '" ++ filename ++ ascii "'\n"]

/-- The file `p` has the line at its start, and the path names it, as it did before if it
named one. -/
structure Wrote (s u : Sys) (relative : CStr) (p : Ptr) (line : List UInt8) : Prop where
  before : ∀ q, fsFindByPath s.ramfs relative = some q → q ≠ 0 → q = p
  bytes : contents u p = overwrite (contents s p) 0 line
  others : ∀ q, q ≠ p → (u.ramfs.nodes q).isSome = true → contents u q = contents s q

/-- **`echo` into a file** refuses and leaves every byte, or it writes the line. -/
theorem echoInto_wrote (hs : Good s)
    (hpath : workingPath s.kernel.vfs.currentWorkingDirectory filename = path)
    (hres : Resolves (rounds + 1) s.kernel.vfs path i .ramfs relative)
    (hlt : text.length + 1 < 2 ^ 31)
    (h : echoInto (rounds + 1) s text filename = some (out, u)) :
    out ∈ refusals filename ∧ Reads u (contents s) ∨
      out = ascii "echo: wrote " ++ formatUnsigned (text.length + 1) 10 false ++
          ascii " bytes to '" ++ filename ++ ascii "'\n" ∧
        ∃ p x line, (line = text ∨ line = text ++ [newline]) ∧ Wrote s u relative p line ∧
          Names (rounds + 1) u path i relative p x ∧ u.kernel.vfs.freeFile.isSome = true ∧
          u.kernel.vfs.currentWorkingDirectory = s.kernel.vfs.currentWorkingDirectory ∧
          filename ≠ [] ∧ path.length < vfsMaxPath := by
  unfold Commands.echoInto at h
  split at h
  · cases h
    exact .inl ⟨.head _, fun _ _ => rfl⟩
  rename_i hne
  obtain ⟨hfits, h⟩ := Option.ite_none_right_eq_some.mp h
  rw [hpath] at h hfits
  obtain ⟨⟨answer, t⟩, hcreate, h⟩ := Option.bind_eq_some_iff.mp h
  obtain ⟨⟨answer', w⟩, hopen, h⟩ := Option.bind_eq_some_iff.mp h
  obtain ⟨bs, hf⟩ := hs.fits
  have hfinds := fun q => create_finds (q := q) hs hres hcreate
  have hvfs := create_vfs hcreate
  obtain ⟨⟨bs₁, hf₁⟩, hreads₁⟩ := still_reads hf (.create path) rfl hcreate
  obtain ⟨⟨bs₂, hf₂⟩, hreads₂⟩ := still_reads hf₁ (.openFile path) rfl hopen
  have hram := openFile_ramfs hopen
  have hreads : Reads w (contents s) := fun q hq => (hreads₂ q hq).trans (hreads₁ q (hram ▸ hq))
  dsimp only at h
  split at h
  · cases h
    exact .inl ⟨.tail _ (.head _), hreads⟩
  rename_i hcode
  obtain rfl := not_not.mp hcode
  rw [← hvfs] at hres
  obtain ⟨p, x, j, hnames, hfree, rfl⟩ := openFile_finds hres hopen
  set f : VfsFile := ⟨p, some i, 0, true⟩ with hfile
  obtain ⟨⟨out', y⟩, hecho, h⟩ := Option.bind_eq_some_iff.mp h
  obtain ⟨⟨answer, z⟩, hclose, h⟩ := Option.bind_eq_some_iff.mp h
  cases h
  have hram' : z.ramfs = y.ramfs := by
    obtain ⟨z', hz', hram'⟩ := close_returns (rounds + 1) t.handles.length y
    rw [← hram', (Prod.mk.inj (Option.some.inj (hz'.symm.trans hclose))).2]
  have hholds : Holds { t.kernel.vfs with openFiles := t.kernel.vfs.openFiles.set j f }
      t.handles.length f (opened t j f) := ⟨rfl, f, List.getElem?_concat_length, .refl f⟩
  have hu := (echoTo_holds hholds hecho).close rfl hclose
  obtain ⟨rfl, rfl⟩ | ⟨rfl, line, hline, hwritten⟩ :=
    echoTo_written hf₂ (place_opened hnames) hlt hecho
  · obtain ⟨-, hreads₃⟩ := still_reads hf₂ (.close t.handles.length) rfl hclose
    refine .inl ⟨.tail _ (.tail _ (.head _)), fun q hq => (hreads₃ q hq).trans (hreads q ?_)⟩
    rw [← hram']
    exact hq
  obtain ⟨bs₃, hf₃⟩ := hwritten.fits
  obtain ⟨-, hreads₃⟩ := still_reads hf₃ (.close t.handles.length) rfl hclose
  obtain ⟨x', hx', -, htype, -⟩ := hwritten.alike.some hnames.node
  have hp : (z.ramfs.nodes p).isSome = true := by
    rw [hram', hx']
    rfl
  refine .inr ⟨rfl, p, x', line, hline, ⟨fun q hq h0 => ?_, ?_, fun q hne hq => ?_⟩, ?_, ?_, ?_,
    hne, hfits⟩
  · exact Option.some.inj ((hfinds q hq h0).symm.trans hnames.found)
  · rw [hreads₃ p hp, hwritten.bytes, Function.update_self, hreads p (by
      rw [show (opened t j f).ramfs.nodes p = some x from hnames.node]
      rfl)]
  · obtain ⟨y', hy'⟩ := Option.isSome_iff_exists.mp hq
    rw [hram'] at hy'
    obtain ⟨x'', hx'', -⟩ := hwritten.alike.symm.some hy'
    rw [hreads₃ q hq, hwritten.bytes, Function.update_of_ne hne]
    exact hreads q (by rw [hx'']; rfl)
  · refine ⟨?_, ?_, hnames.notNull, by rw [hram']; exact hx', htype.trans hnames.file⟩
    · rw [hu]
      exact ⟨hres.initialized, hres.slot, hres.ops⟩
    · rw [hram', hwritten.alike.fsFindByPath]
      exact hnames.found
  · rw [hu]
    exact freeFile_withoutEntry hfree rfl
  · rw [hu, ← hvfs]
    rfl

/-- **What `echo` writes `cat` prints.** In every state of a session, in which other code
calls the kernel and lines are entered in any order, an `echo` of a text into a file of the
RAM file system either refuses and changes no byte of any file, or it puts the text, and a
newline if there is memory for it, over the start of the file that the path named, and
changes no other file; then `cat` of the name prints the file as far as its NULs let it. -/
theorem cat_prints_echo (hboot : Booted s) {events : List Event}
    (hevents : Heeded (step (rounds + 1)) Allowed events s) :
    ∀ t ∈ visited (step (rounds + 1)) events s, ∀ (text filename path relative out : CStr) (i : Nat)
      (u : Sys), text.length + 1 < 2 ^ 31 →
      workingPath t.kernel.vfs.currentWorkingDirectory filename = path →
      Resolves (rounds + 1) t.kernel.vfs path i .ramfs relative →
      echoInto (rounds + 1) t text filename = some (out, u) →
      out ∈ refusals filename ∧ Reads u (contents t) ∨
        out = ascii "echo: wrote " ++ formatUnsigned (text.length + 1) 10 false ++
            ascii " bytes to '" ++ filename ++ ascii "'\n" ∧
          ∃ p line, (line = text ∨ line = text ++ [newline]) ∧ Wrote t u relative p line ∧
            ((contents u p).length ≤ 255 * rounds → ∃ w, cmdCat (rounds + 1) u (some filename) =
              some (shown (overwrite (contents t p) 0 line) ++ [newline], w)) := by
  intro t ht text filename path relative out i u hlt hpath hres hecho
  have hgood := good_visited hboot hevents t ht
  obtain hrefused | ⟨hout, p, x, line, hline, hwrote, hnames, hfree, hcwd, hne, hfits⟩ :=
    echoInto_wrote hgood hpath hres hlt hecho
  · exact .inl hrefused
  refine .inr ⟨hout, p, line, hline, hwrote, fun hlen => ?_⟩
  obtain ⟨j, hj⟩ := Option.isSome_iff_exists.mp hfree
  obtain ⟨bs, hf⟩ := (hgood.echoInto hlt hecho).fits
  obtain ⟨w, hw⟩ := cat_prints hf hnames hne (by rw [hcwd]; exact hpath) hfits hj hlen
  exact ⟨w, hwrote.bytes ▸ hw⟩

/-- A RAM file system at the root, and a line in a file. -/
def longLine : List Event :=
  [.other (.mount rootStr fsRamfs 0 .ramfs), .line (ascii "echo hello world > f")]

/-- What a run of the example shows: the path of the file resolves, and `echo` and `cat`
print. -/
def exampleRun (t : Sys) : Bool :=
  (decide (t.kernel.vfs.initialized = true ∧ workingPath t.kernel.vfs.currentWorkingDirectory
      (ascii "f") = ascii "/f" ∧ resolve 10 t.kernel.vfs (ascii "/f") = some (some (0, ascii "/f")) ∧
      t.kernel.vfs.opsAt 0 = some .ramfs)) &&
    (echoInto 10 t (ascii "hi") (ascii "f")).any fun r =>
      (decide (r.1 = ascii "echo: wrote 3 bytes to 'f'\n")) &&
        ((fsFindByPath t.ramfs (ascii "/f")).any fun q => decide (q ≠ 0 ∧
          (contents r.2 q).length ≤ 255 * 9)) &&
        (cmdCat 10 r.2 (some (ascii "f"))).any fun r' => decide (r'.1 = ascii "hi\nlo world\n\n")

/-- A shorter line overwrites the beginning of a longer one, and the rest stays. -/
theorem cat_prints_echo_shorter : ∃ s, Booted s ∧ ∃ t ∈ visited (step 10) longLine s, ∃ u p line w,
    echoInto 10 t (ascii "hi") (ascii "f") = some (ascii "echo: wrote 3 bytes to 'f'\n", u) ∧
      Wrote t u (ascii "/f") p line ∧
      cmdCat 10 u (some (ascii "f")) =
        some (shown (overwrite (contents t p) 0 line) ++ [newline], w) ∧
      shown (overwrite (contents t p) 0 line) ++ [newline] = ascii "hi\nlo world\n\n" := by
  have hrun : (call 10 (start vfsInit Vfs.Runs.noVolume fun _ => 0) .init).any (fun r =>
      (longLine.foldlM (step 10) r.2).any exampleRun) = true := by
    decide +kernel
  obtain ⟨⟨r, s⟩, hinit, hrun⟩ := (Option.any_eq_true _ _).mp hrun
  obtain ⟨t, ht, hrun⟩ := (Option.any_eq_true _ _).mp hrun
  rw [exampleRun, Bool.and_eq_true] at hrun
  obtain ⟨hresolves, hrun⟩ := hrun
  obtain ⟨hinitialized, hpath, hslot, hops⟩ := of_decide_eq_true hresolves
  obtain ⟨⟨out, u⟩, hecho, hrun⟩ := (Option.any_eq_true _ _).mp hrun
  rw [Bool.and_eq_true, Bool.and_eq_true] at hrun
  obtain ⟨⟨hout, hfind⟩, hcat⟩ := hrun
  obtain rfl : out = ascii "echo: wrote 3 bytes to 'f'\n" := of_decide_eq_true hout
  obtain ⟨q, hq, hlen⟩ := (Option.any_eq_true _ _).mp hfind
  obtain ⟨h0, hlen⟩ := of_decide_eq_true hlen
  obtain ⟨⟨text, w⟩, hw, htext⟩ := (Option.any_eq_true _ _).mp hcat
  obtain rfl : text = ascii "hi\nlo world\n\n" := of_decide_eq_true htext
  have hbooted : Booted s := ⟨10, Vfs.Runs.noVolume, fun _ => 0, r, hinit⟩
  have hvisited := mem_visited_of_foldlM ht
  have hevents : Heeded (step 10) Allowed longLine s :=
    ⟨trivial, fun _ _ => ⟨trivial, fun _ _ => trivial⟩⟩
  obtain ⟨hrefused, -⟩ | ⟨-, p, line, -, hwrote, hprints⟩ := cat_prints_echo hbooted hevents
    t hvisited (ascii "hi") (ascii "f") (ascii "/f") (ascii "/f") _ 0 u (by decide) hpath
    ⟨hinitialized, hslot, hops⟩ hecho
  · exact absurd hrefused (by decide +kernel)
  obtain rfl := hwrote.before q hq h0
  obtain ⟨w', hw'⟩ := hprints hlen
  have hsame := (Prod.mk.inj (Option.some.inj (hw'.symm.trans hw))).1
  exact ⟨s, hbooted, t, hvisited, u, q, line, w', hecho, hwrote, hw', hsame⟩

end ContinuumOS.Shell.Redirection
