import ContinuumOS.Vfs.Quiet

/-! # Reads and writes on the heap

A read gives bytes of the buffer. A write that reaches over the end of its file first
asks for a longer buffer, and the bytes move with it; then the new bytes go to their
place. The buffers of other files stay as they are, and where the new buffer lies does
not depend on what any of them holds. -/
namespace ContinuumOS.Vfs.Writing
open ContinuumOS.Lib.Memory ContinuumOS.Lib.Cursors
open ContinuumOS.Lib.Answering
open ContinuumOS.Heap.Model ContinuumOS.Heap.Layout ContinuumOS.Heap.Invariant
open ContinuumOS.Heap.Runs (eq_or_apart wholeHeap blocks_initHeap)
open ContinuumOS.Heap.Placing
open ContinuumOS.Ramfs.Nodes ContinuumOS.Ramfs.Holdings
open ContinuumOS.Fat32.Volume (World)
open ContinuumOS.Vfs.Adapters ContinuumOS.Vfs.Files ContinuumOS.Vfs.Transfers
open ContinuumOS.Vfs.OnHeap ContinuumOS.Vfs.OnHeap.Sys ContinuumOS.Vfs.Owners
open ContinuumOS.Vfs.Unseen ContinuumOS.Vfs.AnyBytes ContinuumOS.Vfs.Quiet

variable {s : Sys} {bs bs' : List Block} {p d c k n : Nat} {x : FSNode} {m mid : Mem}
  {src : List UInt8}

/-- The memory with bytes at an address. -/
def putAt (m : Mem) (a : Nat) (src : List UInt8) : Mem := store m a src.length fun i => src.getD i 0

/-! ## A longer buffer -/

/-- **The buffer of a file grows**, or there is no room and nothing changes. -/
theorem growTo_over (hf : Fits s bs) (hx : s.ramfs.nodes p = some x) (hn : n ≤ 2 ^ 32 - 16)
    (hlt : x.size < n) : ∃ d o bs', (d = 0 → o = s.owner ∧ bs' = bs) ∧
      (d ≠ 0 → Owned o s.arrays (Function.update (held s.ramfs) p (some (d, n))) bs') ∧
      ∀ m, Blocks ⟨m, s.freeList⟩ bs → ∃ m', (onBytes s m).growTo p x n = some (d, s.overlaid m' o) ∧
        Blocks ⟨m', s.freeList⟩ bs' ∧ (d = 0 → m' = m) ∧
        (d ≠ 0 → ∀ i < x.size, m' (d + i) = m (x.data + i)) ∧
        SameBytes (Function.update (held s.ramfs) p none) m m' := by
  have hg := held_of_node hx
  have hnode := hf.owned.node _ _ hg
  have hunset := hf.owned.unset p
  by_cases hdata : x.data = 0
  · have hnew := hf.owned.fresh (n := n) hf.blocks
    refine ⟨(placed n bs).1, taken s.owner (placed n bs).1 (.buffer p), (placed n bs).2,
      fun h0 => ⟨by rw [h0]; rfl, placed_null h0⟩, fun h0 => ?_, fun m hm => ?_⟩
    · refine (hf.owned.take hf.blocks n (.buffer p)).set (taken_of_some hnew hnode) (fun ha => ?_)
        (fun _ => ⟨taken_self h0, hasBlock_placed hn h0⟩) fun hd => absurd hd h0
      exact taken_of_some hnew (hf.owned.array _ _ hg ha)
    · obtain ⟨m', hk, hb', hkeeps, hnull⟩ := kmalloc_over (s := onBytes s m) hm n (.buffer p)
      have hempty : x.size = 0 := hf.owned.empty _ _ hg hdata
      refine ⟨m', ?_, hb', hnull, fun _ i hi => ?_, hunset.sameBytes hkeeps fun _ _ _ h0 => h0⟩
      · rw [growTo, if_pos hdata, hk]
        rfl
      · rw [hempty] at hi
        cases hi
  · obtain ⟨howner, hblock⟩ := hf.owned.buffer _ _ hg hdata
    have hn0 : n ≠ 0 := Nat.ne_of_gt (Nat.lt_of_le_of_lt (Nat.zero_le _) hlt)
    have hne {y : Nat} {o : Owner} (hy : s.owner y = some o) (ho : o ≠ .buffer p) : y ≠ x.data := by
      rintro rfl
      rw [howner] at hy
      exact ho (Option.some.inj hy).symm
    have hunheld := hf.owned.unheld_own (.inr (.inr howner))
    refine ⟨(resized x.data n bs).1, moved s.owner x.data (resized x.data n bs).1 (.buffer p),
      (resized x.data n bs).2, fun h0 => ⟨by rw [h0]; rfl, resized_null hf.blocks hblock h0⟩,
      fun h0 => ?_, fun m hm => ?_⟩
    · obtain ⟨m', -, -, -, -, hcopied⟩ := krealloc_over hf.blocks hblock hn0 hn (.buffer p)
      have hmoved := hunset.move hf.blocks howner hunheld n (.buffer p)
      have hset := hmoved.set (hf.owned.moved_other hf.blocks howner n hnode (hne hnode nofun))
        (fun ha => hf.owned.moved_other hf.blocks howner n (hf.owned.array _ _ hg ha)
          (hne (hf.owned.array _ _ hg ha) nofun))
        (fun _ => ⟨by rw [moved, if_neg h0, Function.update_self], (hcopied h0).1⟩)
        fun hd => absurd hd h0
      rwa [Function.update_idem] at hset
    · obtain ⟨m', hk, hb', hkeeps, hnull, hcopied⟩ :=
        krealloc_over (s := onBytes s m) hm hblock hn0 hn (.buffer p)
      refine ⟨m', ?_, hb', hnull, fun h0 => (hcopied h0).2,
        hunset.sameBytes hkeeps fun q g hq _ => (hunheld q g hq).2.2⟩
      rw [growTo, if_neg hdata, hk]
      rfl

/-! ## Bytes to their place -/

theorem put_blocks {h : HeapState} (hb : Blocks h bs) (hd : HasBlock bs d k)
    (hle : c + src.length ≤ k) : Blocks { h with mem := putAt h.mem (d + c) src } bs := by
  obtain ⟨b, hm, -, rfl, hk⟩ := hd
  refine hb.payload_congr hm fun y hy => store_outside ?_
  simp only [Block.fin, Block.payload] at *
  omega

theorem put_other {h : HeapState} (hb : Blocks h bs) (hd : HasBlock bs d k)
    (hle : c + src.length ≤ k) {q j : Nat} (hq : HasBlock bs q j) (hne : q ≠ d) :
    ∀ i < j, putAt m (d + c) src (q + i) = m (q + i) := by
  intro i hi
  obtain ⟨b, hm, -, rfl, hk⟩ := hd
  obtain ⟨b', hm', -, rfl, hj⟩ := hq
  have hap := (eq_or_apart hb.laid hm hm').resolve_left fun he => hne (by rw [he])
  refine store_outside ?_
  simp only [Block.fin, Block.payload] at *
  omega

theorem put_sameBytes {owner : Nat → Option Owner} {arrays : Ptr → Ptr}
    {holds : Ptr → Option (Ptr × Nat)} {h : HeapState} (hb : Blocks h bs)
    (hf : Owned owner arrays holds bs) (hg : holds p = some (d, k)) (hd : d ≠ 0)
    (hle : c + src.length ≤ k) (m : Mem) :
    SameBytes (Function.update holds p none) m (putAt m (d + c) src) := by
  intro q g hq i hi
  rw [Function.update_apply] at hq
  obtain ⟨hqp, hq⟩ := Option.ite_none_left_eq_some.mp hq
  obtain ⟨howner, hblock⟩ := hf.buffer p _ hg hd
  have hg0 : g.1 ≠ 0 := fun h0 => by
    rw [hf.empty q g hq h0] at hi
    cases hi
  obtain ⟨howner', hblock'⟩ := hf.buffer q g hq hg0
  refine put_other hb hblock hle hblock' (fun he => hqp ?_) i hi
  rw [he, howner] at howner'
  cases howner'
  rfl

/-! ## The calls -/

/-- The bytes that a call writes. -/
def source : Act → Option (List UInt8)
  | .write _ src => some src
  | .sysWrite _ src => some src
  | _ => none

/-- The handles after a call that moved so many bytes: a descriptor stays where it is. -/
def movedHandles (s : Sys) (length : Nat) : Act → List VfsFile
  | .read n _ => s.handles.modify n (advance · (some length))
  | .write n _ => s.handles.modify n (advance · (some length))
  | _ => s.handles

/-- The system after the write of so many bytes left the node with that buffer and that
size. -/
def rewritten (s : Sys) (act : Act) (length : Nat) (p : Ptr) (x : FSNode) (d size : Nat) : Sys :=
  { s with
    kernel := { s.kernel with stores := { s.kernel.stores with
      ramfs := s.ramfs.store p { x with data := d, size } } }
    handles := movedHandles s length act }

variable {act : Act} {rounds : Nat}

theorem handlePlace_leads (h : s.handlePlace n = some (p, x, c)) : ∃ f, s.handles[n]? = some f ∧
    f.fsHandle = p ∧ f.position = c ∧ Leads s.kernel f x := by
  obtain ⟨f, hf, h⟩ := Option.bind_eq_some_iff.mp h
  obtain ⟨y, hy, h⟩ := Option.bind_eq_some_iff.mp h
  obtain ⟨⟨hreached, h0⟩, h⟩ := Option.ite_none_right_eq_some.mp h
  cases h
  exact ⟨f, hf, rfl, rfl, hreached, h0, hy⟩

theorem descriptorPlace_file {fd : Nat} (h : s.descriptorPlace fd = some (p, x, c)) :
    ∃ d, descriptor s.ramfs fd = some d ∧ d.node = p ∧ d.offset = c ∧ p ≠ 0 ∧
      s.ramfs.nodes p = some x ∧ x.type = .file := by
  obtain ⟨d, hd, h⟩ := Option.bind_eq_some_iff.mp h
  obtain ⟨y, hy, h⟩ := Option.bind_eq_some_iff.mp h
  obtain ⟨⟨h0, htype⟩, h⟩ := Option.ite_none_right_eq_some.mp h
  cases h
  exact ⟨d, hd, rfl, rfl, h0, hy, htype⟩

theorem place_node (h : s.place act = some (p, x, c)) : s.ramfs.nodes p = some x := by
  have hhandle {n : Nat} (h : s.handlePlace n = some (p, x, c)) : s.ramfs.nodes p = some x := by
    obtain ⟨f, -, rfl, -, hl⟩ := handlePlace_leads h
    exact hl.node
  have hdescriptor {fd : Nat} (h : s.descriptorPlace fd = some (p, x, c)) :
      s.ramfs.nodes p = some x := by
    obtain ⟨d, -, -, -, -, hx, -⟩ := descriptorPlace_file h
    exact hx
  cases act with
  | read n size => exact hhandle h
  | write n src => exact hhandle h
  | sysRead fd size => exact hdescriptor h
  | sysWrite fd src => exact hdescriptor h
  | _ => cases h

theorem set_self {α : Type} {l : List α} {a : α} (h : l[n]? = some a) : l.set n a = l := by
  obtain ⟨hlt, hget⟩ := List.getElem?_eq_some_iff.mp h
  rw [← hget]
  exact List.set_getElem_self hlt

theorem set_eq_modify {α : Type} {l : List α} {a : α} (h : l[n]? = some a) (f : α → α) :
    l.set n (f a) = l.modify n f := by
  apply List.ext_getElem?
  intro i
  rw [List.getElem?_set, List.getElem?_modify]
  split
  · rename_i hi
    rw [← hi, h, if_pos (List.getElem?_eq_some_iff.mp h).1]
    rfl
  · cases l[i]? <;> rfl

/-- The system after `written`. -/
def answered (s : Sys) (act : Act) : Option Nat × Stores → Answer × Sys
  | (none, t) => (.count none, { s with kernel := { s.kernel with stores := t } })
  | (some length, t) => (.count (some length),
      { s with kernel := { s.kernel with stores := t }, handles := movedHandles s length act })

theorem write_call (rounds : Nat) (hsrc : source act = some src) :
    ∃ inner : Grown → Sys → Option (Answer × Sys),
      (∀ s, call rounds s act = s.write act src.length inner) ∧
        ∀ s g, s.place act = some (p, x, c) →
          inner g s = some (answered s act (written g s.kernel.stores p x c src)) := by
  cases act with
  | write n src =>
    cases hsrc
    refine ⟨fun g s => s.runOn n .count fun f => vfsWrite g f src, fun _ => rfl,
      fun s g hplace => ?_⟩
    obtain ⟨f, hn, rfl, rfl, hl⟩ := handlePlace_leads hplace
    simp only [runOn, hn, vfsWrite_written hl]
    cases hw : written g s.kernel.stores f.fsHandle x f.position src with
    | mk r t =>
      cases r with
      | none =>
        rw [Option.map_some, answered]
        simp only [advance, set_self hn]
      | some length =>
        rw [Option.map_some, answered]
        simp only [movedHandles, set_eq_modify hn (advance · (some length))]
  | sysWrite fd src =>
    cases hsrc
    refine ⟨fun g s => s.run .count (onStores (sysWrite g fd src)), fun _ => rfl,
      fun s g hplace => ?_⟩
    obtain ⟨d, hd, rfl, rfl, h0, hx, htype⟩ := descriptorPlace_file hplace
    have hrun : onStores (sysWrite g fd src) s.kernel =
        (some (written g s.kernel.stores d.node x d.offset src)).map fun r =>
          (r.1, { s.kernel with stores := r.2 }) :=
      congrArg _ (sysWrite_written hd h0 hx htype g src)
    simp only [run, hrun, Option.map_some]
    cases written g s.kernel.stores d.node x d.offset src with
    | mk r t =>
      cases r with
      | none => rfl
      | some length => rfl
  | _ => cases hsrc

/-- **What a write does**, whatever lies in the buffers: there is no room for a longer
buffer and nothing happens, or the bytes of the file and then the new bytes lie in a
buffer that is large enough. -/
theorem write_cases (hf : Fits s bs) (rounds : Nat) (hsrc : source act = some src)
    (hplace : s.place act = some (p, x, c)) (hend : c + src.length ≤ 2 ^ 32 - 16) :
    (x.size < c + src.length ∧ ∀ m, Blocks ⟨m, s.freeList⟩ bs →
      (onBytes s m).growTo p x (c + src.length) = some (0, onBytes s m) ∧
        call rounds (onBytes s m) act = some (.count none, onBytes s m)) ∨
    ∃ d o bs', Owned o s.arrays
        (Function.update (held s.ramfs) p (some (d, max x.size (c + src.length)))) bs' ∧
      (x.data ≠ 0 → d ≠ 0) ∧ ∀ m, Blocks ⟨m, s.freeList⟩ bs →
        ∃ mid, Blocks ⟨putAt mid (d + c) src, s.freeList⟩ bs' ∧
        (∀ i < x.size, mid (d + i) = m (x.data + i)) ∧
        SameBytes (Function.update (held s.ramfs) p none) m (putAt mid (d + c) src) ∧
        call rounds (onBytes s m) act = some (.count (some src.length),
          (rewritten s act src.length p x d (max x.size (c + src.length))).overlaid
            (putAt mid (d + c) src) o) := by
  have hx := place_node hplace
  have hg := held_of_node hx
  have hmod : (c + src.length) % 2 ^ 32 = c + src.length := Nat.mod_eq_of_lt (by omega)
  obtain ⟨inner, hcall, hinner⟩ := write_call rounds hsrc
  have hplace' (m : Mem) (o : Nat → Option Owner) : (s.overlaid m o).place act = some (p, x, c) :=
    (place_over s m o act).trans hplace
  by_cases hgrow : x.size < c + src.length
  · obtain ⟨d, o, bs', hnull, howned, hany⟩ := growTo_over hf hx hend hgrow
    have hrun (m m' : Mem) (hgr : (onBytes s m).growTo p x (c + src.length) = some (d, s.overlaid m' o)) :
        call rounds (onBytes s m) act = some (answered (s.overlaid m' o) act
          (written ⟨d, m'⟩ (s.overlaid m' o).kernel.stores p x c src)) := by
      rw [hcall, Sys.write, show (onBytes s m).place act = some (p, x, c) from hplace' m s.owner,
        grow, hmod, if_neg (Nat.not_le.mpr hgrow), hgr]
      exact hinner _ _ (hplace' m' o)
    by_cases h0 : d = 0
    · obtain ⟨rfl, rfl⟩ := hnull h0
      refine .inl ⟨hgrow, fun m hm => ?_⟩
      obtain ⟨m', hgr, -, hsame, -⟩ := hany m hm
      rw [hsame h0] at hgr
      have hcall' := hrun m m hgr
      rw [written, hmod, if_pos hgrow, if_pos h0] at hcall'
      rw [h0] at hgr
      exact ⟨hgr, hcall'⟩
    · rw [Nat.max_eq_right (Nat.le_of_lt hgrow)]
      refine .inr ⟨d, o, bs', howned h0, fun _ => h0, fun m hm => ?_⟩
      obtain ⟨m', hgr, hb', -, hcopied, hsame⟩ := hany m hm
      have hget : Function.update (held s.ramfs) p (some (d, c + src.length)) p = _ :=
        Function.update_self _ _ _
      have hblock := ((howned h0).buffer _ _ hget h0).2
      have hput := put_sameBytes hb' (howned h0) hget h0 (Nat.le_refl _) m'
      rw [Function.update_idem] at hput
      refine ⟨m', put_blocks hb' hblock (Nat.le_refl _), hcopied h0,
        fun q g hq i hi => (hput q g hq i hi).trans (hsame q g hq i hi), ?_⟩
      rw [hrun m m' hgr, written, hmod, if_pos hgrow, if_neg h0]
      rfl
  · have hle := Nat.not_lt.mp hgrow
    rw [Nat.max_eq_left hle]
    have hself : Function.update (held s.ramfs) p (some (x.data, x.size)) = held s.ramfs := by
      rw [← hg, Function.update_eq_self]
    refine .inr ⟨x.data, s.owner, bs, by rw [hself]; exact hf.owned, id, fun m hm => ?_⟩
    have hrun : call rounds (onBytes s m) act = some (answered (onBytes s m) act
        (written ⟨0, m⟩ (onBytes s m).kernel.stores p x c src)) := by
      rw [hcall, Sys.write, show (onBytes s m).place act = some (p, x, c) from hplace' m s.owner,
        grow, hmod, if_pos hle]
      exact hinner _ _ (hplace' m s.owner)
    have hnode : s.ramfs.store p { x with data := x.data, size := x.size } = s.ramfs :=
      congrArg (FsState.mk s.ramfs.root · s.ramfs.fdTable)
        ((congrArg (Function.update s.ramfs.nodes p) hx.symm).trans (Function.update_eq_self p _))
    have hcall' : call rounds (onBytes s m) act = some (.count (some src.length),
        (rewritten s act src.length p x x.data x.size).overlaid (putAt m (x.data + c) src) s.owner) := by
      rw [hrun, written, hmod, if_neg hgrow, rewritten, hnode]
      rfl
    by_cases h0 : x.data = 0
    · -- an empty file without a buffer, and no bytes
      have hempty : x.size = 0 := hf.owned.empty _ _ hg h0
      obtain rfl : src = [] := List.length_eq_zero_iff.mp (by omega)
      have hsame : putAt m (x.data + c) [] = m := funext fun y => store_outside (by
        rw [List.length_nil]
        omega)
      rw [hsame] at hcall'
      exact ⟨m, by rw [hsame]; exact hm, fun _ _ => rfl, by rw [hsame]; exact fun _ _ _ _ _ => rfl,
        by rw [hsame]; exact hcall'⟩
    · exact ⟨m, put_blocks hm (hf.owned.buffer _ _ hg h0).2 hle, fun _ _ => rfl,
        put_sameBytes hm hf.owned hg h0 hle m, hcall'⟩

/-! ## Reading -/

/-- How many bytes a call wants to read. -/
def wanted : Act → Option Nat
  | .read _ size => some size
  | .sysRead _ size => some size
  | _ => none

variable {size : Nat}

/-- The handles after a read of so many bytes at a place of the node. -/
def readHandles (s : Sys) (n : Nat) (x : FSNode) (c size : Nat) : List VfsFile :=
  if x.size ≤ c then s.handles else movedHandles s (min size (x.size - c)) (.read n size)

/-- **What `vfs_read` does** on a RAM file. -/
theorem read_handle (rounds : Nat) (hplace : s.handlePlace n = some (p, x, c)) (size : Nat) :
    call rounds s (.read n size) = if x.data = 0 then some (.bytes none, s)
      else some (.bytes (some (fetched s.memory x c size)),
        { s with handles := readHandles s n x c size }) := by
  obtain ⟨f, hn, rfl, rfl, hl⟩ := handlePlace_leads hplace
  change s.runOn n .bytes (fun f => vfsRead f size) = _
  by_cases hdata : x.data = 0
  · rw [if_pos hdata]
    simp only [runOn, hn, vfsRead_nothing hl hdata, Option.map_some, set_self hn]
  · rw [if_neg hdata]
    simp only [runOn, hn, vfsRead_fetched hl hdata, Option.map_some]
    rw [readHandles]
    by_cases hend : x.size ≤ f.position
    · simp only [if_pos hend, set_self hn]
      rfl
    · simp only [if_neg hend, movedHandles, fetched, length_bytesAt,
        ← set_eq_modify hn (advance · (some (min size (x.size - f.position))))]
      rfl

theorem read_cases (rounds : Nat) (hwanted : wanted act = some size)
    (hplace : s.place act = some (p, x, c))
    (hend : ∀ fd, act = .sysRead fd size → c + size < 2 ^ 32) :
    (∀ m, call rounds (onBytes s m) act = some (.bytes none, onBytes s m)) ∨
    ∃ handles, ∀ m, call rounds (onBytes s m) act =
      some (.bytes (some (fetched m x c size)), onBytes { s with handles } m) := by
  cases act with
  | read n size =>
    cases hwanted
    by_cases hdata : x.data = 0
    · refine .inl fun m => ?_
      rw [read_handle rounds (s := onBytes s m) hplace size, if_pos hdata]
    · refine .inr ⟨readHandles s n x c size, fun m => ?_⟩
      rw [read_handle rounds (s := onBytes s m) hplace size, if_neg hdata]
      rfl
  | sysRead fd size =>
    cases hwanted
    obtain ⟨d, hd, rfl, rfl, h0, hx, htype⟩ := descriptorPlace_file hplace
    by_cases hoffset : d.offset ≤ x.size
    · refine .inr ⟨s.handles, fun m => ?_⟩
      have hrun := sysRead_fetched (s := setMemory m s.kernel.stores) hd h0 hx htype hoffset
        (hend fd rfl)
      change ((sysRead fd size (setMemory m s.kernel.stores)).map _).map _ = _
      rw [hrun]
      rfl
    · refine .inl fun m => ?_
      have hrun := sysRead_past (s := setMemory m s.kernel.stores) hd h0 hx htype
        (Nat.lt_of_not_le hoffset) size
      change ((sysRead fd size (setMemory m s.kernel.stores)).map _).map _ = _
      rw [hrun]
      rfl
  | _ => cases hwanted

/-! ## Any call -/

theorem store_fits {q i : Nat} {v : UInt8} (hf : Fits s bs) (hc : s.Legit (.store q i v)) :
    Fits (s.overlaid (writeByte s.memory (q + i) v) s.owner) bs ∧
      SameBytes (held s.ramfs) s.memory (writeByte s.memory (q + i) v) := by
  obtain ⟨hq, hlt⟩ := hc
  obtain ⟨b, hm, -, rfl, -⟩ := hf.owned.hasBlock hq
  have hsize : sizeAt s.memory (b.payload - headerSize) = b.size := by
    rw [Block.payload, Nat.add_sub_cancel]
    exact (hf.blocks.laid.header hm).1
  rw [hsize] at hlt
  refine ⟨⟨hf.blocks.payload_congr hm fun y hy => writeByte_outside ?_, hf.owned⟩,
    fun r g hg i hi => writeByte_outside ?_⟩
  · simp only [Block.fin, Block.payload] at *
    omega
  · have hg0 : g.1 ≠ 0 := fun h0 => by
      rw [hf.owned.empty r g hg h0] at hi
      cases hi
    obtain ⟨howner, b', hm', -, hpayload, hk⟩ := hf.owned.buffer r g hg hg0
    have hne : b ≠ b' := fun he => by
      rw [← hpayload, ← he, hq] at howner
      cases howner
    have hap := (eq_or_apart hf.blocks.laid hm hm').resolve_left hne
    rw [← hpayload]
    simp only [Block.fin, Block.payload] at *
    omega

/-- The end of a write can be rounded up, the end of a `sys_read` has 32 bits, and other
code keeps to what is its own. -/
def Tame (s : Sys) : Act → Prop
  | .write n src => ∀ r ∈ s.handlePlace n, r.2.2 + src.length ≤ 2 ^ 32 - 16
  | .sysWrite fd src => ∀ r ∈ s.descriptorPlace fd, r.2.2 + src.length ≤ 2 ^ 32 - 16
  | .sysRead fd size => ∀ r ∈ s.descriptorPlace fd, r.2.2 + size < 2 ^ 32
  | .other c => s.Legit c
  | _ => True

instance (s : Sys) : DecidablePred (Tame s)
  | .write n src =>
    inferInstanceAs (Decidable (∀ r ∈ s.handlePlace n, r.2.2 + src.length ≤ 2 ^ 32 - 16))
  | .sysWrite fd src =>
    inferInstanceAs (Decidable (∀ r ∈ s.descriptorPlace fd, r.2.2 + src.length ≤ 2 ^ 32 - 16))
  | .sysRead fd size =>
    inferInstanceAs (Decidable (∀ r ∈ s.descriptorPlace fd, r.2.2 + size < 2 ^ 32))
  | .other c => inferInstanceAs (Decidable (s.Legit c))
  | .init | .mount .. | .mountFat32 .. | .unmount _ | .create _ | .mkdir _ | .remove _ | .rmdir _
  | .openFile _ | .read .. | .seek .. | .close _ | .sysOpen _ | .sysClose _ => .isTrue trivial

theorem Tame.writes (h : Tame s act) (hsrc : source act = some src)
    (hplace : s.place act = some (p, x, c)) : c + src.length ≤ 2 ^ 32 - 16 := by
  cases act with
  | write n src =>
    cases hsrc
    exact h _ hplace
  | sysWrite fd src =>
    cases hsrc
    exact h _ hplace
  | _ => cases hsrc

theorem Tame.reads {fd : Nat} (h : Tame s act) (hact : act = .sysRead fd size)
    (hplace : s.place act = some (p, x, c)) : c + size < 2 ^ 32 := by
  subst hact
  exact h _ hplace

/-- What a call can be: a store, a call that reads and writes no RAM file, a read of one
or a write of one. -/
theorem act_cases (hact : Tame s act) : (∃ q i v, act = .other (.store q i v)) ∨ Still s act ∨
    ∃ p x c, s.place act = some (p, x, c) ∧
      ((∃ size, wanted act = some size) ∨ ∃ src, source act = some src) := by
  cases hplace : s.place act with
  | some r =>
    refine .inr (.inr ⟨r.1, r.2.1, r.2.2, rfl, ?_⟩)
    cases act with
    | read n size => exact .inl ⟨size, rfl⟩
    | sysRead fd size => exact .inl ⟨size, rfl⟩
    | write n src => exact .inr ⟨src, rfl⟩
    | sysWrite fd src => exact .inr ⟨src, rfl⟩
    | _ => cases hplace
  | none =>
    cases act with
    | other c =>
      cases c with
      | store q i v => exact .inl ⟨q, i, v, rfl⟩
      | _ => exact .inr (.inl hact)
    | _ => exact .inr (.inl hplace)

/-- **Every call leaves the blocks to their owners.** -/
theorem call_fits (hf : Fits s bs) (hact : Tame s act) {r : Answer} {u : Sys}
    (h : call rounds s act = some (r, u)) : ∃ bs', Fits u bs' := by
  obtain ⟨q, i, v, rfl⟩ | hstill | ⟨p, x, c, hplace, ⟨size, hsize⟩ | ⟨src, hsrc⟩⟩ := act_cases hact
  · cases h
    exact ⟨bs, (store_fits hf hact).1⟩
  · obtain ⟨bs', hf', -⟩ := still_uniform hf hstill hf r u h
    exact ⟨bs', hf'⟩
  · obtain hfail | ⟨handles, hread⟩ := read_cases rounds hsize hplace
      fun fd he => hact.reads he hplace
    · cases (hfail s.memory).symm.trans h
      exact ⟨bs, hf⟩
    · cases (hread s.memory).symm.trans h
      exact ⟨bs, hf.blocks, hf.owned⟩
  · obtain ⟨-, hfail⟩ | ⟨d, o, bs', howned, -, hwrite⟩ := write_cases hf rounds hsrc hplace
      (hact.writes hsrc hplace)
    · cases (hfail s.memory hf.blocks).2.symm.trans h
      exact ⟨bs, hf⟩
    · obtain ⟨mid, hb', -, -, hcall⟩ := hwrite s.memory hf.blocks
      cases hcall.symm.trans h
      refine ⟨bs', hb', ?_⟩
      have hheld : held (rewritten s act src.length p x d (max x.size (c + src.length))).ramfs =
          Function.update (held s.ramfs) p (some (d, max x.size (c + src.length))) :=
        held_store _ _ _
      exact hheld.symm ▸ howned

/-! ## Runs -/

theorem fits_start (v : VfsTables) (w : World) (m : Mem) : Fits (start v w m) [wholeHeap] :=
  ⟨blocks_initHeap m, fun _ => iff_of_false List.not_mem_nil Bool.false_ne_true, nofun, nofun,
    nofun, nofun⟩

/-- A state that calls of the kernel lead to. -/
def Reached (rounds : Nat) (s : Sys) : Prop := ∃ v w m acts rs,
  Meets (call rounds) Tame acts (start v w m) ∧ answers (call rounds) acts (start v w m) = some (rs, s)

/-- **In every state that is reached the blocks are with their owners.** -/
theorem Reached.fits (h : Reached rounds s) : ∃ bs, Fits s bs := by
  obtain ⟨v, w, m, acts, rs, hmeets, hrun⟩ := h
  refine inv_answers (P := fun s => ∃ bs, Fits s bs) (fun s a r t hf hact hr => ?_)
    ⟨_, fits_start v w m⟩ hmeets hrun
  obtain ⟨bs, hf⟩ := hf
  exact call_fits hf hact hr

end ContinuumOS.Vfs.Writing
