import ContinuumOS.Vfs.Writing

/-! # What the holes of a file show

A write past the end of a file leaves a hole, and the bytes of the hole are those
that the allocator's block held before. Two runs with the same calls that differ in
what other code stored in its own blocks get the same answers as long as no read
covers a byte of a hole. -/
namespace ContinuumOS.Vfs.Holes
open ContinuumOS.Lib.Memory ContinuumOS.Lib.Cursors ContinuumOS.Lib.Answering
open ContinuumOS.Heap.Model ContinuumOS.Heap.Layout
open ContinuumOS.Heap.Invariant
open ContinuumOS.Heap.Runs (wholeHeap blocks_initHeap)
open ContinuumOS.Ramfs.Nodes ContinuumOS.Ramfs.Holdings
open ContinuumOS.Fat32.Volume (World)
open ContinuumOS.Ramfs.Runs (examplePath)
open ContinuumOS.Vfs.Runs (noVolume)
open ContinuumOS.Vfs.Path ContinuumOS.Vfs.Files ContinuumOS.Vfs.Transfers
open ContinuumOS.Vfs.OnHeap ContinuumOS.Vfs.Owners
open ContinuumOS.Vfs.AnyBytes ContinuumOS.Vfs.Quiet ContinuumOS.Vfs.Writing

/-- The bytes of the files that were written since the files are there. -/
abbrev Known := Ptr → Nat → Bool

/-- What is known after a call: a write covers its bytes, and a new file has none. -/
def follow (s : Sys) (known : Known) (act : Act) (r : Answer) : Known := fun q i =>
  (known q i && (held s.ramfs q).isSome) ||
    (source act).any fun src => (s.place act).any fun (p, _, c) =>
      decide (r = .count (some src.length) ∧ q = p ∧ c ≤ i ∧ i < c + src.length)

/-- A read covers no byte of a hole. -/
def Covered (s : Sys × Known) (act : Act) : Prop := Tame s.1 act ∧
  ∀ size ∈ wanted act, ∀ r ∈ s.1.place act, ∀ i < size, r.2.2 + i < r.2.1.size →
    s.2 r.1 (r.2.2 + i) = true

instance (s : Sys × Known) : DecidablePred (Covered s) := fun _ => inferInstanceAs (Decidable (_ ∧ _))

/-- The kernel with what is known beside it. -/
def watched (rounds : Nat) : Sys × Known → Act → Option (Answer × Sys × Known) :=
  ghosted (call rounds) follow

/-- Does other code store a byte? -/
def isStore : Act → Bool
  | .other (.store ..) => true
  | _ => false

/-- Other code keeps to its own blocks. -/
def Lawful (s : Sys) : Act → Prop
  | .other c => s.Legit c
  | _ => True

instance (s : Sys) : DecidablePred (Lawful s)
  | .other c => inferInstanceAs (Decidable (s.Legit c))
  | .init | .mount .. | .mountFat32 .. | .unmount _ | .create _ | .mkdir _ | .remove _ | .rmdir _
  | .openFile _ | .read .. | .write .. | .seek .. | .close _ | .sysOpen _ | .sysRead ..
  | .sysWrite .. | .sysClose _ => .isTrue trivial

/-- Two runs after the same calls: they differ in bytes that are not known. -/
structure Twins (s : Sys × Known) (t : Sys) (bs : List Block) : Prop where
  same : t = onBytes s.1 t.memory
  fits : Fits s.1 bs
  blocks : Blocks ⟨t.memory, s.1.freeList⟩ bs
  agree : ∀ q g i, held s.1.ramfs q = some g → s.2 q i = true →
    i < g.2 ∧ t.memory (g.1 + i) = s.1.memory (g.1 + i)

variable {s u : Sys} {t : Sys} {known : Known} {act : Act} {r : Answer} {bs : List Block}
  {rounds q i p c : Nat} {x : FSNode}

theorem follow_cases (h : follow s known act r q i = true) :
    (known q i = true ∧ ∃ g, held s.ramfs q = some g) ∨ ∃ src x c, source act = some src ∧
      s.place act = some (q, x, c) ∧ r = .count (some src.length) ∧ c ≤ i ∧ i < c + src.length := by
  rw [follow, Bool.or_eq_true, Bool.and_eq_true, Option.isSome_iff_exists, Option.any_eq_true] at h
  obtain h | ⟨src, hsrc, h⟩ := h
  · exact .inl h
  obtain ⟨⟨p, x, c⟩, hplace, h⟩ := (Option.any_eq_true _ _).mp h
  obtain ⟨hr, rfl, hle, hlt⟩ := of_decide_eq_true h
  exact .inr ⟨src, x, c, hsrc, hplace, hr, hle, hlt⟩

theorem place_still (h : Still s act) : s.place act = none := by
  cases act with
  | other c => rfl
  | _ => exact h

theorem follow_quiet (hquiet : source act = none ∨ s.place act = none)
    (h : follow s known act r q i = true) : known q i = true ∧ ∃ g, held s.ramfs q = some g := by
  obtain h | ⟨src, x, c, hsrc, hplace, -⟩ := follow_cases h
  · exact h
  · obtain hno | hno := hquiet
    · rw [hno] at hsrc
      cases hsrc
    · rw [hno] at hplace
      cases hplace

theorem Twins.bytes (h : Twins (s, known) t bs) {m m' : Mem} {known' : Known}
    (hs : Blocks ⟨m, s.freeList⟩ bs) (ht : Blocks ⟨m', s.freeList⟩ bs)
    (hsame : SameBytes (held s.ramfs) s.memory m) (hsame' : SameBytes (held s.ramfs) t.memory m')
    (hknown : ∀ q i, known' q i = true → known q i = true ∧ ∃ g, held s.ramfs q = some g) :
    Twins (onBytes s m, known') (onBytes s m') bs where
  same := rfl
  fits := ⟨hs, h.fits.owned⟩
  blocks := ht
  agree q g i hg hi := by
    obtain ⟨hlt, hbyte⟩ := h.agree q g i hg (hknown q i hi).1
    exact ⟨hlt, (hsame' q g hg i hlt).trans (hbyte.trans (hsame q g hg i hlt).symm)⟩

/-! ## One call of both runs -/

theorem twins_still (h : Twins (s, known) t bs) (hact : Still s act)
    (hr : call rounds s act = some (r, u)) : ∃ v, call rounds t act = some (r, v) ∧
      ∃ bs', Twins (u, follow s known act r) v bs' := by
  obtain ⟨bs', hf', hgrows, -, hany⟩ := still_uniform h.fits hact h.fits r u hr
  obtain ⟨m, hm, -, hsame⟩ := hany s.memory h.fits.blocks
  obtain ⟨m', hm', hblocks', hsame'⟩ := hany t.memory h.blocks
  have hu : u = onBytes u m := by
    have hrun := hm.symm.trans hr
    exact (Prod.mk.inj (Option.some.inj hrun)).2.symm
  have hmem : u.memory = m := congrArg Sys.memory hu
  refine ⟨onBytes u m', by rw [h.same]; exact hm', bs', rfl, hf', hblocks', fun q g i hg hi => ?_⟩
  obtain ⟨hi, g', hg'⟩ := follow_quiet (.inr (place_still hact)) hi
  obtain hold | hnew := hgrows q g hg
  · obtain ⟨hlt, hbyte⟩ := h.agree q g i hold hi
    refine ⟨hlt, ?_⟩
    rw [hmem]
    exact (hsame' q g hg i hlt).trans (hbyte.trans (hsame q g hg i hlt).symm)
  · rw [hg'] at hnew
    cases hnew

theorem twins_read {size : Nat} (h : Twins (s, known) t bs) (hact : Covered (s, known) act)
    (hsize : wanted act = some size) (hplace : s.place act = some (p, x, c))
    (hr : call rounds s act = some (r, u)) : ∃ v, call rounds t act = some (r, v) ∧
      ∃ bs', Twins (u, follow s known act r) v bs' := by
  have hquiet : source act = none := by
    cases act with
    | read n size => rfl
    | sysRead fd size => rfl
    | _ => cases hsize
  rw [h.same]
  obtain hfail | ⟨handles, hread⟩ := read_cases rounds hsize hplace
    fun fd he => hact.1.reads he hplace
  · cases (hfail s.memory).symm.trans hr
    exact ⟨_, hfail t.memory, bs, h.bytes h.fits.blocks h.blocks (fun _ _ _ _ _ => rfl)
      (fun _ _ _ _ _ => rfl) fun q i => follow_quiet (.inl hquiet)⟩
  · cases (hread s.memory).symm.trans hr
    have hbytes : fetched t.memory x c size = fetched s.memory x c size := by
      refine bytesAt_congr fun i hi => ?_
      have hlt : c + i < x.size := by omega
      have hknown := hact.2 size hsize _ hplace i (by omega) hlt
      rw [Nat.add_assoc]
      exact (h.agree p _ (c + i) (held_of_node (place_node hplace)) hknown).2
    refine ⟨onBytes { s with handles } t.memory, by rw [hread, hbytes], bs, ?_⟩
    exact ⟨rfl, ⟨h.fits.blocks, h.fits.owned⟩, h.blocks, fun q g i hg hi =>
      h.agree q g i hg (follow_quiet (.inl hquiet) hi).1⟩

theorem twins_write {src : List UInt8} (h : Twins (s, known) t bs) (hact : Tame s act)
    (hsrc : source act = some src) (hplace : s.place act = some (p, x, c))
    (hr : call rounds s act = some (r, u)) : ∃ v, call rounds t act = some (r, v) ∧
      ∃ bs', Twins (u, follow s known act r) v bs' := by
  rw [h.same]
  obtain ⟨-, hfail⟩ | ⟨d, o, bs', howned, -, hwrite⟩ := write_cases h.fits rounds hsrc hplace
    (hact.writes hsrc hplace)
  · cases (hfail s.memory h.fits.blocks).2.symm.trans hr
    refine ⟨_, (hfail t.memory h.blocks).2, bs, h.bytes h.fits.blocks h.blocks
      (fun _ _ _ _ _ => rfl) (fun _ _ _ _ _ => rfl) fun q i hi => ?_⟩
    obtain hold | ⟨_, _, _, _, _, hcount, -⟩ := follow_cases hi
    · exact hold
    · cases hcount
  obtain ⟨mid, hb, hcopied, hsame, hcall⟩ := hwrite s.memory h.fits.blocks
  obtain ⟨mid', hb', hcopied', hsame', hcall'⟩ := hwrite t.memory h.blocks
  cases hcall.symm.trans hr
  have hheld : held (rewritten s act src.length p x d (max x.size (c + src.length))).ramfs =
      Function.update (held s.ramfs) p (some (d, max x.size (c + src.length))) := held_store _ _ _
  refine ⟨_, hcall', bs', rfl, ⟨hb, hheld.symm ▸ howned⟩, hb', fun q g i hg hi => ?_⟩
  change held (rewritten s act src.length p x d (max x.size (c + src.length))).ramfs q = _ at hg
  rw [hheld, Function.update_apply] at hg
  change i < g.2 ∧ putAt mid' (d + c) src (g.1 + i) = putAt mid (d + c) src (g.1 + i)
  split at hg
  · rename_i hqp
    cases hg
    by_cases hin : c ≤ i ∧ i < c + src.length
    · -- a byte of the write
      refine ⟨by omega, ?_⟩
      rw [putAt, putAt, store_inside (by omega) (by omega), store_inside (by omega) (by omega)]
    · obtain ⟨hi, -⟩ | ⟨src', x', c', hsrc', hplace', -, hle, hlt⟩ := follow_cases hi
      · obtain ⟨hlt, hbyte⟩ := h.agree p _ i (held_of_node (place_node hplace)) (hqp ▸ hi)
        refine ⟨by omega, ?_⟩
        rw [putAt, putAt, store_outside (by omega), store_outside (by omega), hcopied' i hlt,
          hcopied i hlt]
        exact hbyte
      · cases hsrc.symm.trans hsrc'
        cases hplace.symm.trans hplace'
        exact absurd ⟨hle, hlt⟩ hin
  · rename_i hqp
    obtain ⟨hi, -⟩ | ⟨src', x', c', -, hplace', -⟩ := follow_cases hi
    · obtain ⟨hlt, hbyte⟩ := h.agree q g i hg hi
      have hq : Function.update (held s.ramfs) p none q = some g := by
        rw [Function.update_of_ne hqp, hg]
      exact ⟨hlt, (hsame' q g hq i hlt).trans (hbyte.trans (hsame q g hq i hlt).symm)⟩
    · cases hplace.symm.trans hplace'
      exact absurd rfl hqp

/-! ## Stores -/

theorem twins_left {j : Nat} {v : UInt8} (h : Twins (s, known) t bs)
    (hc : s.Legit (.store j i v)) :
    Twins (s.overlaid (writeByte s.memory (j + i) v) s.owner,
      follow s known (.other (.store j i v)) .nothing) t bs := by
  obtain ⟨hf, hsame⟩ := store_fits h.fits hc
  have hquiet (q i : Nat) (hi : follow s known (.other (.store j i v)) .nothing q i = true) :=
    follow_quiet (.inl rfl) hi
  have ht := h.bytes hf.blocks h.blocks hsame (fun _ _ _ _ _ => rfl) fun q i => hquiet q i
  rwa [← h.same] at ht

theorem twins_right {j : Nat} {v : UInt8} (h : Twins (s, known) t bs)
    (hc : t.Legit (.store j i v)) :
    Twins (s, known) (t.overlaid (writeByte t.memory (j + i) v) t.owner) bs := by
  have hfits : Fits t bs := by
    rw [h.same]
    exact ⟨h.blocks, h.fits.owned⟩
  obtain ⟨hf, hsame⟩ := store_fits hfits hc
  have hover : t.overlaid (writeByte t.memory (j + i) v) t.owner =
      onBytes s (writeByte t.memory (j + i) v) := by
    rw [h.same]
    rfl
  rw [hover] at hf ⊢
  rw [h.same] at hsame
  refine ⟨rfl, h.fits, hf.blocks, fun q g i hg hi => ?_⟩
  obtain ⟨hlt, hbyte⟩ := h.agree q g i hg hi
  exact ⟨hlt, (hsame q g hg i hlt).trans hbyte⟩

/-! ## Runs -/

theorem twins_start (v : VfsTables) (w : World) (m m' : Mem) :
    Twins (start v w m, fun _ _ => false) (start v w m') [wholeHeap] :=
  ⟨rfl, fits_start v w m, blocks_initHeap m', nofun⟩

/-- The states of two runs after the same calls. -/
def Paired (s : Sys × Known) (t : Sys) : Prop := ∃ bs, Twins s t bs

theorem paired_both (s : Sys × Known) (t : Sys) (act : Act) (r : Answer) (u : Sys × Known)
    (h : Paired s t) (hact : Covered s act) (hact' : Lawful t act)
    (hr : watched rounds s act = some (r, u)) :
    ∃ v, call rounds t act = some (r, v) ∧ Paired u v := by
  obtain ⟨bs, h⟩ := h
  obtain ⟨⟨r', u'⟩, hcall, hu⟩ := Option.map_eq_some_iff.mp hr
  cases hu
  obtain ⟨q, i, v, rfl⟩ | hstill | ⟨p, x, c, hplace, ⟨size, hsize⟩ | ⟨src, hsrc⟩⟩ :=
    act_cases hact.1
  · cases hcall
    exact ⟨_, rfl, bs, twins_right (twins_left h hact.1) hact'⟩
  · exact twins_still h hstill hcall
  · exact twins_read h hact hsize hplace hcall
  · exact twins_write h hact.1 hsrc hplace hcall

theorem store_of_isStore (h : isStore act = true) : ∃ j i v, act = .other (.store j i v) := by
  cases act with
  | other c =>
    cases c with
    | store j i v => exact ⟨j, i, v, rfl⟩
    | _ => cases h
  | _ => cases h

theorem paired_left (s : Sys × Known) (t : Sys) (act : Act) (r : Answer) (u : Sys × Known)
    (h : Paired s t) (hstore : isStore act = true) (hact : Covered s act)
    (hr : watched rounds s act = some (r, u)) : decide (r ≠ .nothing) = false ∧ Paired u t := by
  obtain ⟨bs, h⟩ := h
  obtain ⟨j, i, v, rfl⟩ := store_of_isStore hstore
  cases hr
  exact ⟨rfl, bs, twins_left h hact.1⟩

theorem paired_right (s : Sys × Known) (t : Sys) (act : Act) (h : Paired s t)
    (hstore : isStore act = true) (hact : Lawful t act) :
    ∃ r v, call rounds t act = some (r, v) ∧ decide (r ≠ .nothing) = false ∧ Paired s v := by
  obtain ⟨bs, h⟩ := h
  obtain ⟨j, i, v, rfl⟩ := store_of_isStore hstore
  exact ⟨_, _, rfl, rfl, bs, twins_right h hact⟩

/-- **Runs that differ in what other code stored get the same answers**, if no read
covers a byte of a hole. -/
theorem answers_agree (rounds : Nat) (v : VfsTables) (w : World) (m m' : Mem)
    {acts acts' : List Act}
    (hacts : acts.filter (!isStore ·) = acts'.filter (!isStore ·))
    (hcovered : Meets (watched rounds) Covered acts (start v w m, fun _ _ => false))
    (hlawful : Meets (call rounds) Lawful acts' (start v w m')) {rs : List Answer} {u : Sys}
    (hrun : answers (call rounds) acts (start v w m) = some (rs, u)) :
    ∃ rs' u', answers (call rounds) acts' (start v w m') = some (rs', u') ∧
      rs'.filter (· ≠ .nothing) = rs.filter (· ≠ .nothing) := by
  have hwatched : ∃ known, answers (watched rounds) acts (start v w m, fun _ _ => false) =
      some (rs, u, known) := answers_ghosted _ hrun
  obtain ⟨known, hwatched⟩ := hwatched
  obtain ⟨rs', u', hrun', hheard, -⟩ := answers_twin paired_both paired_left paired_right
    (alike_of_filter hacts) ⟨_, twins_start v w m m'⟩ hcovered hlawful hwatched
  exact ⟨rs', u', hrun', hheard⟩

/-! ## A hole over a block of other code -/

/-- The block behind the root and its array. -/
def firstFree : Nat :=
  kernelHeapStart + (headerSize + align16 sizeofFSNode) + (headerSize + arraySize) + headerSize

/-- Other code stores a byte in a block of its own and frees it; the byte comes to lie in
the buffer of the file `"/f"`, behind three others. -/
def reuse (v : UInt8) : List Act := [.mount rootStr fsRamfs 0 .ramfs, .init,
  .other (.kmalloc 2000), .other (.store firstFree (align16 sizeofFSNode + headerSize + 3) v),
  .other (.kfree firstFree), .create examplePath, .openFile examplePath]

/-- Four bytes are written, and the last is read. -/
def readBack (v : UInt8) : List Act := reuse v ++ [.write 0 [1, 2, 3, 4], .seek 0 3, .read 0 1]

/-- A byte is written behind four that never were, and the last of these is read. -/
def readHole (v : UInt8) : List Act := reuse v ++ [.seek 0 4, .write 0 [7], .seek 0 3, .read 0 1]

/-- The kernel with nothing in the memory. -/
def blank : Sys := start vfsInit noVolume fun _ => 0

theorem answers_agree_example : ∃ rs u, answers (call 9) (readBack 6) blank = some (rs, u) ∧
    (rs.filter (· ≠ .nothing)).getLast? = some (.bytes (some [4])) := by
  have hfirst : (answers (call 9) (readBack 5) blank).map
      (fun r => (r.1.filter (· ≠ .nothing)).getLast?) = some (some (.bytes (some [4]))) := by
    decide +kernel
  have hacts : (readBack 5).filter (!isStore ·) = (readBack 6).filter (!isStore ·) := rfl
  have hcovered : Meets (watched 9) Covered (readBack 5) (blank, fun _ _ => false) := by
    decide +kernel
  have hlawful : Meets (call 9) Lawful (readBack 6) blank := by decide +kernel
  obtain ⟨⟨rs, u⟩, hrun, hlast⟩ := Option.map_eq_some_iff.mp hfirst
  obtain ⟨rs', u', hrun', hsame⟩ := answers_agree 9 _ _ _ _ hacts hcovered hlawful hrun
  exact ⟨rs', u', hrun', hsame ▸ hlast⟩

/-- The hole shows the byte that other code stored and freed. -/
theorem hole_shows_freed_byte :
    ¬ ∀ (rounds : Nat) (v : VfsTables) (w : World) (m : Mem) (acts acts' : List Act)
      (rs rs' : List Answer) (u u' : Sys), acts.filter (!isStore ·) = acts'.filter (!isStore ·) →
      Meets (call rounds) Tame acts (start v w m) → Meets (call rounds) Tame acts' (start v w m) →
      answers (call rounds) acts (start v w m) = some (rs, u) →
      answers (call rounds) acts' (start v w m) = some (rs', u') →
        rs'.filter (· ≠ .nothing) = rs.filter (· ≠ .nothing) := by
  intro hall
  have hfirst : (answers (call 9) (readHole 5) blank).map
      (fun r => (r.1.filter (· ≠ .nothing)).getLast?) = some (some (.bytes (some [5]))) := by
    decide +kernel
  have hsecond : (answers (call 9) (readHole 6) blank).map
      (fun r => (r.1.filter (· ≠ .nothing)).getLast?) = some (some (.bytes (some [6]))) := by
    decide +kernel
  have htame : Meets (call 9) Tame (readHole 5) blank := by decide +kernel
  have htame' : Meets (call 9) Tame (readHole 6) blank := by decide +kernel
  obtain ⟨⟨rs, u⟩, hrun, hlast⟩ := Option.map_eq_some_iff.mp hfirst
  obtain ⟨⟨rs', u'⟩, hrun', hlast'⟩ := Option.map_eq_some_iff.mp hsecond
  have hacts : (readHole 5).filter (!isStore ·) = (readHole 6).filter (!isStore ·) := rfl
  have hsame := hall 9 _ _ _ _ _ rs rs' u u' hacts htame htame' hrun hrun'
  have hne : some (Answer.bytes (some [5])) ≠ some (Answer.bytes (some [6])) := by decide
  exact hne (hlast.symm.trans ((congrArg List.getLast? hsame).symm.trans hlast'))

end ContinuumOS.Vfs.Holes
