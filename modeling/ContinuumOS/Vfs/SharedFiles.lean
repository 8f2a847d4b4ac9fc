import ContinuumOS.Vfs.Writing

/-! # Handles on shared files

Any number of handles open on RAM files are cursors over shared sequences of bytes:
the buffer of a file may be moved whenever one of them extends it, and the others find
their bytes all the same. -/
namespace ContinuumOS.Vfs.SharedFiles
open ContinuumOS.Lib.Effect ContinuumOS.Lib.Memory ContinuumOS.Lib.Blocks
open ContinuumOS.Lib.Cursors ContinuumOS.Lib.Answering
open ContinuumOS.Heap.Model ContinuumOS.Heap.Layout
open ContinuumOS.Ramfs.Nodes ContinuumOS.Ramfs.Holdings
open ContinuumOS.Ramfs.Runs (examplePath)
open ContinuumOS.Vfs.Runs (noVolume)
open ContinuumOS.Vfs.Path ContinuumOS.Vfs.Adapters ContinuumOS.Vfs.Files ContinuumOS.Vfs.Transfers
open ContinuumOS.Vfs.OnHeap ContinuumOS.Vfs.OnHeap.Sys ContinuumOS.Vfs.Owners
open ContinuumOS.Vfs.AnyBytes ContinuumOS.Vfs.Quiet ContinuumOS.Vfs.Writing

/-- The bytes of the node at an address. -/
def contents (s : Sys) (q : Ptr) : List UInt8 :=
  match held s.ramfs q with
  | none => []
  | some (d, k) => bytesAt s.memory d k

/-- The file of a handle, and the place there. -/
def cursorOf (v : VfsTables) (nodes : Ptr → Option FSNode) (f : VfsFile) : Option (Ptr × Nat) :=
  if reached v f = some .ramfs ∧ f.fsHandle ≠ 0 ∧ (nodes f.fsHandle).isSome then
    some (f.fsHandle, f.position) else none

/-- The files and the handles of the kernel, as sequences and cursors. -/
def filesOf (s : Sys) : Lib.Cursors.Files Ptr UInt8 :=
  ⟨contents s, s.handles.map (cursorOf s.kernel.vfs s.ramfs.nodes)⟩

/-- The calls on sequences and cursors. -/
def reply (t : Lib.Cursors.Files Ptr UInt8) : Act → Answer × Lib.Cursors.Files Ptr UInt8
  | .read n size => ((t.read n size).map .bytes id)
  | .write n src => ((t.write n src).map .count id)
  | .seek n position => ((t.seek n position).map (.code ∘ .ofBool) id)
  | _ => (.nothing, t)

/-- No handle is past the end of its file, and the files have their buffers. -/
def Settled (s : Sys) : Prop :=
  ∀ n < s.handles.length, ∀ r ∈ s.handlePlace n, r.2.2 ≤ r.2.1.size ∧ r.2.1.data ≠ 0

instance (s : Sys) : Decidable (Settled s) := inferInstanceAs
  (Decidable (∀ n < s.handles.length, ∀ r ∈ s.handlePlace n, r.2.2 ≤ r.2.1.size ∧ r.2.1.data ≠ 0))

/-- Reads, writes and seeks on handles of RAM files: no seek passes the end, positions stay
below `2 ^ 31`, and a longer buffer is there. Other code keeps to its own blocks. -/
def Served (s : Sys) : Act → Prop
  | .read n _ => (s.handlePlace n).isSome = true
  | .write n src => (s.handlePlace n).isSome = true ∧ ∀ r ∈ s.handlePlace n,
      r.2.2 + src.length < 2 ^ 31 ∧ (r.2.1.size < r.2.2 + src.length →
        ∀ g ∈ s.growTo r.1 r.2.1 (r.2.2 + src.length), g.1 ≠ 0)
  | .seek n position => (s.handlePlace n).isSome = true ∧
      ∀ r ∈ s.handlePlace n, position ≤ r.2.1.size
  | .other c => s.Legit c
  | _ => False

instance (s : Sys) : DecidablePred (Served s)
  | .read n _ => inferInstanceAs (Decidable ((s.handlePlace n).isSome = true))
  | .write n src => inferInstanceAs (Decidable ((s.handlePlace n).isSome = true ∧
      ∀ r ∈ s.handlePlace n, r.2.2 + src.length < 2 ^ 31 ∧ (r.2.1.size < r.2.2 + src.length →
        ∀ g ∈ s.growTo r.1 r.2.1 (r.2.2 + src.length), g.1 ≠ 0)))
  | .seek n position => inferInstanceAs (Decidable ((s.handlePlace n).isSome = true ∧
      ∀ r ∈ s.handlePlace n, position ≤ r.2.1.size))
  | .other c => inferInstanceAs (Decidable (s.Legit c))
  | .init | .mount .. | .mountFat32 .. | .unmount _ | .create _ | .mkdir _ | .remove _ | .rmdir _
  | .openFile _ | .close _ | .sysOpen _ | .sysRead .. | .sysWrite .. | .sysClose _ => .isFalse id

variable {s u : Sys} {bs : List Block} {rounds n p c : Nat} {x : FSNode} {f : VfsFile}

/-! ## The handles -/

theorem cursor_filesOf (h : s.handlePlace n = some (p, x, c)) :
    (filesOf s).cursor n = some (p, c) := by
  obtain ⟨f, hf, rfl, rfl, hl⟩ := handlePlace_leads h
  have hnode : (s.ramfs.nodes f.fsHandle).isSome = true := by
    rw [show s.ramfs.nodes f.fsHandle = some x from hl.node]
    rfl
  rw [Files.cursor, filesOf, List.getElem?_map, hf]
  exact if_pos ⟨hl.reached, hl.notNull, hnode⟩

theorem contents_of_node (h : s.ramfs.nodes p = some x) :
    contents s p = bytesAt s.memory x.data x.size := by
  rw [contents, held_of_node h]

theorem handlePlace_lt (h : s.handlePlace n = some (p, x, c)) : n < s.handles.length := by
  obtain ⟨f, hf, -⟩ := handlePlace_leads h
  exact (List.getElem?_eq_some_iff.mp hf).1

theorem Settled.at (h : Settled s) (hplace : s.handlePlace n = some (p, x, c)) :
    c ≤ x.size ∧ x.data ≠ 0 := h n (handlePlace_lt hplace) _ hplace

/-- A node that is as long, and still has a buffer. -/
def Longer (x y : FSNode) : Prop := x.size ≤ y.size ∧ (x.data ≠ 0 → y.data ≠ 0)

/-- One handle gets another position, and no file gets shorter. -/
structure Moves (s u : Sys) (n p c : Nat) : Prop where
  vfs : u.kernel.vfs = s.kernel.vfs
  handles : ∀ f, s.handles[n]? = some f → u.handles = s.handles.set n { f with position := c }
  nodes : ∀ q, Option.Rel Longer (s.ramfs.nodes q) (u.ramfs.nodes q)
  inside : ∀ y, u.ramfs.nodes p = some y → c ≤ y.size

theorem Moves.kept {c' q : Nat} {y : FSNode} (h : Moves s u n p c') (hy : u.ramfs.nodes q = some y) :
    ∃ x, s.ramfs.nodes q = some x ∧ Longer x y := by
  have hrel := h.nodes q
  rw [hy] at hrel
  cases hx : s.ramfs.nodes q with
  | none =>
    rw [hx] at hrel
    cases hrel
  | some x =>
    rw [hx] at hrel
    cases hrel with
    | some hlonger => exact ⟨x, rfl, hlonger⟩

theorem Moves.files {c' : Nat} (h : Moves s u n p c') (hplace : s.handlePlace n = some (p, x, c)) :
    filesOf u = ({ filesOf s with bytes := contents u } : Lib.Cursors.Files Ptr UInt8).move n p c' := by
  obtain ⟨f, hn, rfl, rfl, hl⟩ := handlePlace_leads hplace
  have hsome (q : Ptr) : (u.ramfs.nodes q).isSome = (s.ramfs.nodes q).isSome := by
    have hrel := h.nodes q
    generalize s.ramfs.nodes q = a, u.ramfs.nodes q = b at hrel
    cases hrel <;> rfl
  have hcursor : cursorOf u.kernel.vfs u.ramfs.nodes = cursorOf s.kernel.vfs s.ramfs.nodes := by
    funext f
    rw [cursorOf, cursorOf, h.vfs, hsome]
  have hnode : (s.ramfs.nodes f.fsHandle).isSome = true := by
    rw [show s.ramfs.nodes f.fsHandle = some x from hl.node]
    rfl
  have hnew : cursorOf s.kernel.vfs s.ramfs.nodes { f with position := c' } =
      some (f.fsHandle, c') := if_pos ⟨hl.reached, hl.notNull, hnode⟩
  rw [filesOf, hcursor, h.handles f hn, List.map_set, hnew]
  rfl

theorem Moves.settled {c' : Nat} (h : Moves s u n p c') (hplace : s.handlePlace n = some (p, x, c))
    (hs : Settled s) : Settled u := by
  rintro j - ⟨q, y, c''⟩ hr
  obtain ⟨f', hj, rfl, rfl, hl'⟩ := handlePlace_leads hr
  obtain ⟨f, hn, rfl, rfl, hl⟩ := handlePlace_leads hplace
  rw [h.handles f hn, List.getElem?_set] at hj
  obtain ⟨z, hz, hsize, hdata⟩ := h.kept hl'.node
  split at hj
  · -- the handle that moved
    split at hj
    · cases hj
      obtain rfl := Option.some.inj (hl.node.symm.trans hz)
      exact ⟨h.inside y hl'.node, hdata (hs.at hplace).2⟩
    · cases hj
  · have hl'' : Leads s.kernel f' z := ⟨h.vfs ▸ hl'.reached, hl'.notNull, hz⟩
    obtain ⟨hle, h0⟩ := hs.at (handlePlace_of_leads hj hl'')
    exact ⟨Nat.le_trans hle hsize, hdata h0⟩

/-! ## One call -/

theorem size_lt (hf : Fits s bs) (hx : s.ramfs.nodes p = some x) : x.size < 2 ^ 31 := by
  have hg := held_of_node hx
  by_cases h0 : x.data = 0
  · have hempty : x.size = 0 := hf.owned.empty _ _ hg h0
    omega
  · obtain ⟨-, b, hm, -, -, hle⟩ := hf.owned.buffer _ _ hg h0
    have hbounds := hf.blocks.bounds hm
    have hend : heapEnd < 2 ^ 31 := by decide
    change x.size ≤ b.size at hle
    omega

theorem set_advance {size : Nat} (hplace : s.handlePlace n = some (p, x, c))
    (hlt : c + size < 2 ^ 32) (hn : s.handles[n]? = some f) :
    s.handles.modify n (advance · (some size)) = s.handles.set n { f with position := c + size } := by
  obtain ⟨f', hn', -, rfl, -⟩ := handlePlace_leads hplace
  obtain rfl := Option.some.inj (hn.symm.trans hn')
  rw [← set_eq_modify hn (advance · (some size)), advance, Nat.mod_eq_of_lt hlt]

theorem longer_refl (o : Option FSNode) : Option.Rel Longer o o := by
  cases o with
  | none => exact .none
  | some x => exact .some ⟨Nat.le_refl _, id⟩

/-- **A read** gives the bytes from the cursor on. -/
theorem read_serves (rounds : Nat) (hf : Fits s bs) (hs : Settled s)
    (hplace : s.handlePlace n = some (p, x, c)) (size : Nat) :
    ∃ u, call rounds s (.read n size) = some ((reply (filesOf s) (.read n size)).1, u) ∧
      filesOf u = (reply (filesOf s) (.read n size)).2 ∧ Fits u bs ∧ Settled u := by
  obtain ⟨hle, h0⟩ := hs.at hplace
  have hx : s.ramfs.nodes p = some x := place_node (show s.place (.read n size) = _ from hplace)
  have hsize := size_lt hf hx
  have hcall := read_handle rounds hplace size
  rw [if_neg h0] at hcall
  have hread : (filesOf s).read n size = (some (fetched s.memory x c size),
      (filesOf s).move n p (c + min size (x.size - c))) := by
    rw [Files.read, cursor_filesOf hplace]
    have hgot : ((contents s p).drop c).take size = fetched s.memory x c size := by
      rw [contents_of_node hx, bytesAt_drop_take _ _ hle, fetched]
    change (some (((contents s p).drop c).take size), (filesOf s).move n p
      (c + (((contents s p).drop c).take size).length)) = _
    rw [hgot, fetched, length_bytesAt]
  have hmoves : Moves s { s with handles := readHandles s n x c size } n p
      (c + min size (x.size - c)) := by
    refine ⟨rfl, fun f hn => ?_, fun q => longer_refl _, fun y hy => ?_⟩
    · change readHandles s n x c size = _
      rw [readHandles]
      split
      · rename_i hend
        obtain ⟨f', hn', -, rfl, -⟩ := handlePlace_leads hplace
        obtain rfl := Option.some.inj (hn.symm.trans hn')
        rw [Nat.sub_eq_zero_of_le hend, Nat.min_zero, Nat.add_zero]
        exact (set_self hn).symm
      · exact set_advance hplace (by omega) hn
    · obtain rfl := Option.some.inj (hx.symm.trans hy)
      omega
  refine ⟨_, hcall.trans ?_, (hmoves.files hplace).trans ?_, ⟨hf.blocks, hf.owned⟩,
    hmoves.settled hplace hs⟩
  · rw [reply, hread]
    rfl
  · rw [reply, hread]
    rfl

theorem vfsSeek_leads {k : Kernel} (hl : Leads k f x) (position : Nat) :
    vfsSeek f position k = some ((.success, { f with position }), k) := by
  rw [vfsSeek]
  simp only [bind_run, get_run, Option.bind_some, hl.reached]
  change some ((ramfsVfsSeek f position), k) = _
  rw [ramfsVfsSeek, if_neg (not_not.mpr hl.inUse), if_neg hl.notNull]

/-- **A seek** moves the cursor. -/
theorem seek_serves (rounds : Nat) (hf : Fits s bs) (hs : Settled s)
    (hplace : s.handlePlace n = some (p, x, c)) {position : Nat} (hle : position ≤ x.size) :
    ∃ u, call rounds s (.seek n position) = some ((reply (filesOf s) (.seek n position)).1, u) ∧
      filesOf u = (reply (filesOf s) (.seek n position)).2 ∧ Fits u bs ∧ Settled u := by
  have hx : s.ramfs.nodes p = some x := place_node (show s.place (.read n 0) = _ from hplace)
  obtain ⟨f, hn, rfl, rfl, hl⟩ := handlePlace_leads hplace
  have hseek : (filesOf s).seek n position = (true, (filesOf s).move n f.fsHandle position) := by
    rw [Files.seek, cursor_filesOf hplace]
  have hmoves : Moves s { s with handles := s.handles.set n { f with position } } n f.fsHandle
      position := by
    refine ⟨rfl, fun f' hn' => ?_, fun q => longer_refl _, fun y hy => ?_⟩
    · obtain rfl := Option.some.inj (hn.symm.trans hn')
      rfl
    · obtain rfl := Option.some.inj (hx.symm.trans hy)
      exact hle
  refine ⟨_, ?_, (hmoves.files hplace).trans ?_, ⟨hf.blocks, hf.owned⟩, hmoves.settled hplace hs⟩
  · change s.runOn n Answer.code (fun f => vfsSeek f position) = _
    rw [reply, hseek]
    simp only [runOn, hn, vfsSeek_leads hl]
    rfl
  · rw [reply, hseek]
    rfl

/-- A write finds no room, or it overwrites and extends the bytes at its place. -/
theorem write_overwrites (hf : Fits s bs) (rounds : Nat) {act : Act} {src : List UInt8}
    (hsrc : source act = some src) (hplace : s.place act = some (p, x, c))
    (hend : c + src.length ≤ 2 ^ 32 - 16) (hle : c ≤ x.size) :
    (x.size < c + src.length ∧ s.growTo p x (c + src.length) = some (0, s) ∧
      call rounds s act = some (.count none, s)) ∨
    ∃ d m o u bs', call rounds s act = some (.count (some src.length), u) ∧
      u = (rewritten s act src.length p x d (max x.size (c + src.length))).overlaid m o ∧
      (x.data ≠ 0 → d ≠ 0) ∧ Fits u bs' ∧
      contents u = Function.update (contents s) p (overwrite (contents s p) c src) := by
  have hx := place_node hplace
  obtain ⟨hgrows, hfail⟩ | ⟨d, o, bs', howned, hd, hwrite⟩ := write_cases hf rounds hsrc hplace hend
  · exact .inl ⟨hgrows, hfail s.memory hf.blocks⟩
  obtain ⟨mid, hb, hcopied, hsame, hcall⟩ := hwrite s.memory hf.blocks
  have hheld : held (rewritten s act src.length p x d (max x.size (c + src.length))).ramfs =
      Function.update (held s.ramfs) p (some (d, max x.size (c + src.length))) := held_store _ _ _
  refine .inr ⟨d, putAt mid (d + c) src, o, _, bs', hcall, rfl, hd,
    ⟨hb, hheld.symm ▸ howned⟩, funext fun q => ?_⟩
  change (match held (rewritten s act src.length p x d (max x.size (c + src.length))).ramfs q with
    | none => []
    | some (d', k) => bytesAt (putAt mid (d + c) src) d' k) = _
  rw [hheld, Function.update_apply, Function.update_apply]
  by_cases hq : q = p
  · rw [if_pos hq, if_pos hq, contents_of_node hx]
    exact bytesAt_store hle hcopied
  · rw [if_neg hq, if_neg hq, contents]
    cases hg : held s.ramfs q with
    | none => rfl
    | some g =>
      refine bytesAt_congr (hsame q g ?_)
      rw [Function.update_of_ne hq, hg]

/-- **A write** overwrites and extends the bytes at the cursor. -/
theorem write_serves (rounds : Nat) (hf : Fits s bs) (hs : Settled s)
    (hplace : s.handlePlace n = some (p, x, c)) {src : List UInt8} (hlt : c + src.length < 2 ^ 31)
    (hgrow : x.size < c + src.length → ∀ g ∈ s.growTo p x (c + src.length), g.1 ≠ 0) :
    ∃ u, call rounds s (.write n src) = some ((reply (filesOf s) (.write n src)).1, u) ∧
      filesOf u = (reply (filesOf s) (.write n src)).2 ∧ ∃ bs', Fits u bs' ∧ Settled u := by
  obtain ⟨hle, h0⟩ := hs.at hplace
  have hx : s.ramfs.nodes p = some x := place_node (show s.place (.write n src) = _ from hplace)
  obtain ⟨hgrows, hnone, -⟩ | ⟨d, m, o, u, bs', hcall, hu, hd, hf', hbytes⟩ := write_overwrites hf
    rounds (show source (.write n src) = some src from rfl) hplace (by omega) hle
  · exact absurd rfl (hgrow hgrows _ hnone)
  have hwritten : (filesOf s).write n src = (some src.length,
      { filesOf s with bytes := Function.update (contents s) p (overwrite (contents s p) c src) }.move
        n p (c + src.length)) := by
    rw [Files.write, cursor_filesOf hplace]
    rfl
  have hmoves : Moves s u n p (c + src.length) := by
    rw [hu]
    refine ⟨rfl, fun f hn => set_advance hplace (by omega) hn, fun q => ?_, fun y hy => ?_⟩
    · change Option.Rel Longer _ (Function.update s.ramfs.nodes p _ q)
      rw [Function.update_apply]
      split
      · rename_i hq
        rw [hq, hx]
        exact .some ⟨Nat.le_max_left _ _, hd⟩
      · exact longer_refl _
    · change Function.update s.ramfs.nodes p _ p = some y at hy
      rw [Function.update_self] at hy
      cases hy
      exact Nat.le_max_right _ _
  refine ⟨u, ?_, (hmoves.files hplace).trans ?_, bs', hf', hmoves.settled hplace hs⟩
  · rw [reply, hwritten]
    exact hcall
  · rw [reply, hwritten, hbytes]
    rfl

theorem client_frame (hf : Fits s bs) {c : Client} (hc : s.Legit c) : ∃ m o bs',
    s.client c = some (s.overlaid m o) ∧ Fits (s.overlaid m o) bs' ∧
      SameBytes (held s.ramfs) s.memory m := by
  cases c with
  | kmalloc n =>
    obtain ⟨m, hk, hb', hkeeps, -⟩ := kmalloc_over hf.blocks n .other
    refine ⟨m, _, _, ?_, ⟨hb', hf.owned.take hf.blocks n .other⟩,
      hf.owned.sameBytes hkeeps fun _ _ _ h0 => h0⟩
    rw [client, hk]
    rfl
  | kfree p =>
    have hunheld := hf.owned.unheld_other hc
    obtain ⟨m, hk, hb', hkeeps⟩ := kfree_over hf hc
    refine ⟨m, Function.update s.owner p none, _, ?_,
      ⟨hb', hf.owned.give hf.blocks hc hunheld⟩,
      hf.owned.sameBytes hkeeps fun q g hg _ => (hunheld q g hg).2.2⟩
    rw [client, hk]
  | krealloc p n =>
    obtain ⟨hp, h0, hn⟩ := hc
    have hunheld := hf.owned.unheld_other hp
    obtain ⟨m, hk, hb', hkeeps, -⟩ :=
      krealloc_over hf.blocks (hf.owned.hasBlock hp) h0 hn .other
    refine ⟨m, _, _, ?_, ⟨hb', hf.owned.move hf.blocks hp hunheld n .other⟩,
      hf.owned.sameBytes hkeeps fun q g hg _ => (hunheld q g hg).2.2⟩
    rw [client, hk]
    rfl
  | store p i v =>
    obtain ⟨hf', hsame⟩ := store_fits hf hc
    exact ⟨_, _, bs, rfl, hf', hsame⟩

theorem other_serves (rounds : Nat) (hf : Fits s bs) (hs : Settled s) {c : Client}
    (hc : s.Legit c) : ∃ u, call rounds s (.other c) = some (.nothing, u) ∧
      filesOf u = filesOf s ∧ ∃ bs', Fits u bs' ∧ Settled u := by
  obtain ⟨m, o, bs', hclient, hf', hsame⟩ := client_frame hf hc
  refine ⟨s.overlaid m o, ?_, ?_, bs', hf', hs⟩
  · change (s.client c).map _ = _
    rw [hclient]
    rfl
  · have hbytes : contents (s.overlaid m o) = contents s := by
      funext q
      change (match held s.ramfs q with | none => [] | some (d, k) => bytesAt m d k) = contents s q
      rw [contents]
      cases hg : held s.ramfs q with
      | none => rfl
      | some g => exact bytesAt_congr (hsame q g hg)
    rw [filesOf, hbytes]
    rfl

/-! ## Runs -/

/-- The kernel and its files between the calls. -/
def Shows (s : Sys) (t : Lib.Cursors.Files Ptr UInt8) : Prop :=
  t = filesOf s ∧ Settled s ∧ ∃ bs, Fits s bs

theorem shows_step (s : Sys) (t : Lib.Cursors.Files Ptr UInt8) (act : Act) (h : Shows s t)
    (hact : Served s act) :
    ∃ u, call rounds s act = some ((reply t act).1, u) ∧ Shows u (reply t act).2 := by
  obtain ⟨rfl, hs, bs, hf⟩ := h
  cases act with
  | read n size =>
    obtain ⟨⟨p, x, c⟩, hplace⟩ := Option.isSome_iff_exists.mp hact
    obtain ⟨u, hcall, hfiles, hf', hs'⟩ := read_serves rounds hf hs hplace size
    exact ⟨u, hcall, hfiles.symm, hs', bs, hf'⟩
  | write n src =>
    obtain ⟨⟨p, x, c⟩, hplace⟩ := Option.isSome_iff_exists.mp hact.1
    obtain ⟨hlt, hgrow⟩ := hact.2 _ hplace
    obtain ⟨u, hcall, hfiles, bs', hf', hs'⟩ := write_serves rounds hf hs hplace hlt hgrow
    exact ⟨u, hcall, hfiles.symm, hs', bs', hf'⟩
  | seek n position =>
    obtain ⟨⟨p, x, c⟩, hplace⟩ := Option.isSome_iff_exists.mp hact.1
    obtain ⟨u, hcall, hfiles, hf', hs'⟩ := seek_serves rounds hf hs hplace (hact.2 _ hplace)
    exact ⟨u, hcall, hfiles.symm, hs', bs, hf'⟩
  | other c =>
    obtain ⟨u, hcall, hfiles, bs', hf', hs'⟩ := other_serves rounds hf hs hact
    exact ⟨u, hcall, hfiles.symm, hs', bs', hf'⟩
  | _ => cases hact

/-- **Handles on RAM files are cursors over shared bytes.** Any interleaving of reads,
writes and seeks comes back with the answers of the sequences and cursors that the state
shows, and the state afterwards shows theirs. -/
theorem handles_share_files (hreached : Reached rounds s) (hs : Settled s) {acts : List Act}
    (hserved : Meets (call rounds) Served acts s) :
    ∃ u, answers (call rounds) acts s = some ((replies reply acts (filesOf s)).1, u) ∧
      filesOf u = (replies reply acts (filesOf s)).2 := by
  obtain ⟨u, hrun, hfiles, -⟩ := answers_refine shows_step ⟨rfl, hs, hreached.fits⟩ hserved
  exact ⟨u, hrun, hfiles.symm⟩

/-- `"/f"` is made and opened twice. -/
def openTwice : List Act := [.mount rootStr fsRamfs 0 .ramfs, .init, .create examplePath,
  .openFile examplePath, .openFile examplePath]

/-- One handle writes three bytes, the other overwrites the first, and both read; other
code takes a block in between. -/
def interleaved : List Act := [.write 0 [1, 2, 3], .write 1 [9], .other (.kmalloc 100), .read 1 5,
  .seek 0 0, .read 0 2]

theorem handles_share_files_example : ∃ s rs u,
    answers (call 9) openTwice (start vfsInit noVolume fun _ => 0) = some (rs, s) ∧
      answers (call 9) interleaved s = some ([.count (some 3), .count (some 1), .nothing,
        .bytes (some [2, 3]), .code .success, .bytes (some [9, 2])], u) := by
  have hopened : (answers (call 9) openTwice (start vfsInit noVolume fun _ => 0)).map (fun r =>
      (decide (Settled r.2), decide (Meets (call 9) Served interleaved r.2),
        (replies reply interleaved (filesOf r.2)).1)) = some (true, true, [.count (some 3),
          .count (some 1), .nothing, .bytes (some [2, 3]), .code .success, .bytes (some [9, 2])]) := by
    decide +kernel
  have htame : Meets (call 9) Tame openTwice (start vfsInit noVolume fun _ => 0) := by
    decide +kernel
  obtain ⟨⟨rs, s⟩, hrun, hs⟩ := Option.map_eq_some_iff.mp hopened
  obtain ⟨hsettled, hs⟩ := Prod.mk.inj hs
  obtain ⟨hserved, hanswers⟩ := Prod.mk.inj hs
  obtain ⟨u, hcalls, -⟩ := handles_share_files ⟨_, _, _, _, _, htame, hrun⟩
    (of_decide_eq_true hsettled) (of_decide_eq_true hserved)
  exact ⟨s, rs, u, hrun, hanswers ▸ hcalls⟩

end ContinuumOS.Vfs.SharedFiles
