import ContinuumOS.Vfs.SharedFiles

/-! # Reads and writes in a row

`sys_read` and `sys_write` hand the offset of the descriptor to `fs_read` and
`fs_write`, and no one moves it: every call of a row begins at the start of the file.
So a row of writes leaves the chunks one behind the other, and a row of reads gives
the file on from its start, if at most one call of the row moves bytes. -/
namespace ContinuumOS.Vfs.Sequential
open ContinuumOS.Lib.Effect ContinuumOS.Lib.Blocks ContinuumOS.Lib.Cursors
open ContinuumOS.Lib.Answering ContinuumOS.Libc.String ContinuumOS.Heap.Layout
open ContinuumOS.Ramfs.Nodes
open ContinuumOS.Ramfs.Runs (examplePath)
open ContinuumOS.Vfs.Runs (noVolume)
open ContinuumOS.Vfs.Path ContinuumOS.Vfs.Files ContinuumOS.Vfs.Transfers
open ContinuumOS.Vfs.OnHeap ContinuumOS.Vfs.OnHeap.Sys ContinuumOS.Vfs.AnyBytes
open ContinuumOS.Vfs.Writing ContinuumOS.Vfs.SharedFiles

/-! ## Rows of chunks -/

/-- At most one chunk has bytes. -/
def OneChunk (chunks : List (List UInt8)) : Prop := (chunks.filter (· ≠ [])).length ≤ 1

/-- At most one read asks for bytes. -/
def OneRead (sizes : List Nat) : Prop := (sizes.filter (· ≠ 0)).length ≤ 1

/-- The chunks read are the file on from its start, and a read gives nothing only at the
end. -/
def ReadsOn (content : List UInt8) (sizes : List Nat) (got : List (List UInt8)) : Prop :=
  got.flatten <+: content ∧ ∀ i size, sizes[i]? = some size → 0 < size → got[i]? = some [] →
    (got.take i).flatten = content

/-- All chunks written at the start. -/
def overwriteAll (old : List UInt8) (chunks : List (List UInt8)) : List UInt8 :=
  chunks.foldl (fun b chunk => overwrite b 0 chunk) old

variable {old content : List UInt8} {chunks : List (List UInt8)} {sizes : List Nat}

theorem overwriteAll_filter (old : List UInt8) (chunks : List (List UInt8)) :
    overwriteAll old (chunks.filter (· ≠ [])) = overwriteAll old chunks := by
  induction chunks generalizing old with
  | nil => rfl
  | cons chunk chunks ih =>
    by_cases h : chunk = []
    · rw [List.filter_cons_of_neg (by simpa using h), ih, h]
      exact congrArg (overwriteAll · chunks) (overwrite_nil old 0).symm
    · rw [List.filter_cons_of_pos (by simpa using h)]
      exact ih (overwrite old 0 chunk)

theorem overwriteAll_one (h : OneChunk chunks) :
    overwriteAll old chunks = overwrite old 0 chunks.flatten := by
  rw [← overwriteAll_filter, ← List.flatten_filter_ne_nil]
  rw [OneChunk] at h
  generalize chunks.filter (· ≠ []) = l at h
  match l, h with
  | [], _ => exact (overwrite_nil old 0).symm
  | [chunk], _ =>
    rw [List.flatten_singleton]
    rfl

theorem length_overwriteAll_lt {k : Nat} (hold : old.length < k)
    (h : ∀ chunk ∈ chunks, chunk.length < k) : (overwriteAll old chunks).length < k := by
  induction chunks generalizing old with
  | nil => exact hold
  | cons chunk chunks ih =>
    have hnext : (overwrite old 0 chunk).length < k := by
      rw [length_overwrite (Nat.zero_le _), Nat.zero_add]
      exact max_lt hold (h chunk (.head _))
    exact ih hnext fun c hc => h c (.tail _ hc)

theorem oneChunk_of_overwriteAll (h : overwriteAll old chunks = overwrite old 0 chunks.flatten) :
    OneChunk chunks ∨ chunks.flatten.length ≤ old.length := by
  rw [or_iff_not_imp_left, OneChunk, not_le]
  intro htwo
  by_contra hlong
  rw [← overwriteAll_filter, ← List.flatten_filter_ne_nil] at h
  rw [← List.flatten_filter_ne_nil] at hlong
  have hne : ∀ chunk ∈ chunks.filter (· ≠ []), chunk ≠ [] := fun chunk hc => by
    simpa using (List.mem_filter.mp hc).2
  generalize chunks.filter (· ≠ []) = l at h hlong htwo hne
  have hlt : ∀ chunk ∈ l, chunk.length < l.flatten.length := by
    intro chunk hc
    obtain ⟨pre, post, rfl⟩ := List.append_of_mem hc
    have hother : pre ≠ [] ∨ post ≠ [] := by
      by_contra hno
      obtain ⟨rfl, rfl⟩ := not_or.mp hno |>.imp not_not.mp not_not.mp
      simp at htwo
    have hpos {m : List (List UInt8)} (hm : ∀ chunk ∈ m, chunk ≠ []) (h0 : m ≠ []) :
        0 < m.flatten.length := by
      obtain ⟨c, m', rfl⟩ := List.exists_cons_of_ne_nil h0
      have hc := List.length_pos_of_ne_nil (hm c (.head _))
      rw [List.flatten_cons, List.length_append]
      omega
    rw [List.flatten_append, List.flatten_cons, List.length_append, List.length_append]
    obtain h0 | h0 := hother
    · have := hpos (fun c hc => hne c (List.mem_append_left _ hc)) h0
      omega
    · have := hpos (fun c hc => hne c (List.mem_append_right _ (.tail _ hc))) h0
      omega
  have hless := length_overwriteAll_lt (Nat.lt_of_not_le hlong) hlt
  rw [h, length_overwrite (Nat.zero_le _), Nat.zero_add] at hless
  omega

theorem flatten_take_filter (content : List UInt8) (sizes : List Nat) :
    ((sizes.filter (· ≠ 0)).map content.take).flatten = (sizes.map content.take).flatten := by
  induction sizes with
  | nil => rfl
  | cons size sizes ih =>
    by_cases h : size = 0
    · rw [List.filter_cons_of_neg (by simpa using h), ih, h]
      rfl
    · rw [List.filter_cons_of_pos (by simpa using h), List.map_cons, List.map_cons,
        List.flatten_cons, List.flatten_cons, ih]

theorem readsOn_one (h : OneRead sizes) : ReadsOn content sizes (sizes.map content.take) := by
  refine ⟨?_, fun i size hi hpos hnone => ?_⟩
  · rw [← flatten_take_filter]
    rw [OneRead] at h
    generalize sizes.filter (· ≠ 0) = l at h
    match l, h with
    | [], _ => exact List.nil_prefix
    | [size], _ =>
      rw [List.map_singleton, List.flatten_singleton]
      exact List.take_prefix _ _
  · -- only an empty file gives nothing
    rw [List.getElem?_map, hi, Option.map_some] at hnone
    have hempty : content = [] := by
      have htake := List.take_eq_nil_iff.mp (Option.some.inj hnone)
      exact htake.resolve_left (Nat.ne_of_gt hpos)
    rw [hempty, List.flatten_eq_nil_iff]
    intro chunk hc
    obtain ⟨size', -, rfl⟩ := List.mem_map.mp (List.mem_of_mem_take hc)
    exact List.take_nil

theorem readsOn_nil (sizes : List Nat) : ReadsOn [] sizes (sizes.map ([] : List UInt8).take) := by
  have hnil : ∀ l : List Nat, (l.map ([] : List UInt8).take).flatten = [] := fun l => by
    rw [List.flatten_eq_nil_iff]
    intro chunk hc
    obtain ⟨size, -, rfl⟩ := List.mem_map.mp hc
    exact List.take_nil
  refine ⟨?_, fun i size _ _ _ => ?_⟩
  · rw [hnil]
  · rw [← List.map_take, hnil]

theorem oneRead_of_readsOn {b : UInt8} {rest : List UInt8} (hb : b ∉ rest)
    (h : ReadsOn (b :: rest) sizes (sizes.map (b :: rest).take)) : OneRead sizes := by
  have hprefix := h.1
  rw [← flatten_take_filter] at hprefix
  have hpos : ∀ size ∈ sizes.filter (· ≠ 0), size ≠ 0 := fun size hs => by
    simpa using (List.mem_filter.mp hs).2
  rw [OneRead]
  generalize sizes.filter (· ≠ 0) = l at hprefix hpos
  match l with
  | [] => exact Nat.zero_le 1
  | [_] => exact Nat.le_refl 1
  | j :: k :: l =>
    obtain ⟨j, rfl⟩ := Nat.exists_eq_succ_of_ne_zero (hpos j (.head _))
    obtain ⟨k, rfl⟩ := Nat.exists_eq_succ_of_ne_zero (hpos k (.tail _ (.head _)))
    rw [List.map_cons, List.map_cons, List.flatten_cons, List.flatten_cons, List.take_succ_cons,
      List.take_succ_cons, List.cons_append, List.cons_append] at hprefix
    have hrest := (List.cons_prefix_cons.mp hprefix).2
    exact absurd (hrest.subset (List.mem_append_right _ (.head _))) hb

/-! ## The calls -/

variable {s t u : Sys} {bs : List Block} {rounds fd p c : Nat} {x : FSNode} {path : CStr}

theorem offset_of_sysOpen (h : call rounds s (.sysOpen path) = some (.count (some fd), t)) :
    ∃ node, descriptor t.ramfs fd = some ⟨node, 0, true⟩ := by
  obtain ⟨⟨r, k⟩, hr, ht⟩ := Option.map_eq_some_iff.mp h
  cases ht
  obtain ⟨⟨r', stores⟩, hopen, hr⟩ := Option.map_eq_some_iff.mp hr
  cases hr
  obtain ⟨node, stores', hfind, hopen⟩ := bind_eq_some hopen
  split at hopen
  · cases hopen
  obtain ⟨⟨r, fs⟩, hfs, hopen⟩ := Option.map_eq_some_iff.mp hopen
  cases hopen
  have hfs := Option.some.inj hfs
  rw [fsOpen] at hfs
  split at hfs
  · cases hfs
  · rename_i i hi
    cases hfs
    refine ⟨node, ?_⟩
    have hlt := (List.findIdx?_eq_some_iff_getElem.mp hi).1
    change ((stores'.ramfs.fdTable.set fd ⟨node, 0, true⟩)[fd]?).filter _ = _
    rw [List.getElem?_set_self hlt]
    rfl

theorem descriptorPlace_rewritten {src : List UInt8} (h : s.descriptorPlace fd = some (p, x, c))
    (d size : Nat) (m : Lib.Memory.Mem) (o : Nat → Option Owner) :
    ((rewritten s (.sysWrite fd src) src.length p x d size).overlaid m o).descriptorPlace fd =
      some (p, { x with data := d, size }, c) := by
  obtain ⟨f, hf, rfl, rfl, h0, hx, htype⟩ := descriptorPlace_file h
  rw [descriptorPlace]
  change (descriptor s.ramfs fd).bind _ = _
  rw [hf, Option.bind_some]
  change (Function.update s.ramfs.nodes f.node _ f.node).bind _ = _
  rw [Function.update_self, Option.bind_some]
  exact if_pos ⟨h0, htype⟩

theorem contents_writes : ∀ {chunks : List (List UInt8)} {s : Sys} {bs : List Block} {x : FSNode},
    Fits s bs → s.descriptorPlace fd = some (p, x, 0) →
    (∀ chunk ∈ chunks, chunk.length ≤ 2 ^ 32 - 16) →
    answers (call rounds) (chunks.map (.sysWrite fd)) s =
      some (chunks.map fun chunk => .count (some chunk.length), u) →
    contents u p = overwriteAll (contents s p) chunks := by
  intro chunks
  induction chunks with
  | nil =>
    intro s bs x _ _ _ hrun
    cases hrun
    rfl
  | cons chunk chunks ih =>
    intro s bs x hf hplace hlen hrun
    obtain ⟨r, t, rs, hcall, hrest, hrs⟩ := answers_cons hrun
    obtain ⟨rfl, rfl⟩ := List.cons.inj hrs
    obtain ⟨-, -, hnone⟩ | ⟨d, m, o, t', bs', hsome, ht, -, hf', hbytes⟩ := write_overwrites hf rounds
      (show source (.sysWrite fd chunk) = some chunk from rfl) hplace
      (by rw [Nat.zero_add]; exact hlen chunk (.head _)) (Nat.zero_le _)
    · cases hnone.symm.trans hcall
    cases hsome.symm.trans hcall
    have hplace' := ht ▸ descriptorPlace_rewritten hplace d (max x.size (0 + chunk.length)) m o
    have hrow := ih hf' hplace' (fun c hc => hlen c (.tail _ hc)) hrest
    rw [hrow, hbytes, Function.update_self]
    rfl

theorem answers_reads (hplace : s.descriptorPlace fd = some (p, x, 0)) :
    ∀ {sizes : List Nat}, (∀ size ∈ sizes, size < 2 ^ 32) →
      answers (call rounds) (sizes.map (.sysRead fd)) s =
        some (sizes.map fun size => .bytes (some ((contents s p).take size)), s) := by
  intro sizes
  obtain ⟨f, hf, rfl, hoffset, h0, hx, htype⟩ := descriptorPlace_file hplace
  induction sizes with
  | nil => exact fun _ => rfl
  | cons size sizes ih =>
    intro hlt
    have hcall : call rounds s (.sysRead fd size) =
        some (.bytes (some ((contents s f.node).take size)), s) := by
      have hread := sysRead_fetched (s := s.kernel.stores) hf h0 hx htype (by omega)
        (show f.offset + size < 2 ^ 32 by rw [hoffset, Nat.zero_add]; exact hlt size (.head _))
      have hgot : ((bytesAt s.memory x.data x.size).drop 0).take size = _ :=
        bytesAt_drop_take s.memory x.data (Nat.zero_le x.size)
      rw [← contents_of_node hx, List.drop_zero] at hgot
      change ((Transfers.sysRead fd size s.kernel.stores).map _).map _ = _
      rw [hread, hoffset, fetched, hgot]
      rfl
    exact answers_step hcall (ih fun size hs => hlt size (.tail _ hs))

/-- **Rows of system calls on a descriptor of `sys_open`.** -/
theorem sequential_calls (hreached : Reached rounds s)
    (hopen : call rounds s (.sysOpen path) = some (.count (some fd), t))
    (hplace : t.descriptorPlace fd = some (p, x, c)) :
    (∀ chunks u, (∀ chunk ∈ chunks, chunk.length ≤ 2 ^ 32 - 16) →
      answers (call rounds) (chunks.map (.sysWrite fd)) t =
        some (chunks.map fun chunk => .count (some chunk.length), u) →
      (OneChunk chunks → contents u p = overwrite (contents t p) 0 chunks.flatten) ∧
      (contents u p = overwrite (contents t p) 0 chunks.flatten →
        OneChunk chunks ∨ chunks.flatten.length ≤ (contents t p).length)) ∧
    ∀ sizes, (∀ size ∈ sizes, size < 2 ^ 32) → ∃ got,
      answers (call rounds) (sizes.map (.sysRead fd)) t =
        some (got.map fun g => .bytes (some g), t) ∧
      (OneRead sizes ∨ contents t p = [] → ReadsOn (contents t p) sizes got) ∧
      ∀ b rest, contents t p = b :: rest → b ∉ rest → ReadsOn (contents t p) sizes got →
        OneRead sizes := by
  obtain ⟨bs, hf⟩ := hreached.fits
  obtain ⟨bs', hf'⟩ := call_fits hf (show Tame s (.sysOpen path) from trivial) hopen
  obtain ⟨node, hnode⟩ := offset_of_sysOpen hopen
  obtain ⟨f, hfd, rfl, rfl, -⟩ := descriptorPlace_file hplace
  obtain rfl := Option.some.inj (hnode.symm.trans hfd)
  refine ⟨fun chunks u hlen hrun => ?_, fun sizes hlt => ?_⟩
  · rw [contents_writes hf' hplace hlen hrun]
    exact ⟨overwriteAll_one, oneChunk_of_overwriteAll⟩
  · refine ⟨sizes.map (contents t node).take, ?_, fun hone => ?_, fun b rest hb hrest hon => ?_⟩
    · rw [answers_reads hplace hlt, List.map_map]
      rfl
    · obtain hone | hempty := hone
      · exact readsOn_one hone
      · rw [hempty]
        exact readsOn_nil sizes
    · rw [hb] at hon
      exact oneRead_of_readsOn hrest hon

/-- `"/f"` is made. -/
def makeFile : List Act := [.mount rootStr fsRamfs 0 .ramfs, .init, .create examplePath]

/-- The answers to calls after `sys_open` of `"/f"`, and what the file holds then. -/
def onNewFile (acts : List Act) : Option (List Answer × List UInt8) :=
  (answers (call 9) makeFile (start vfsInit noVolume fun _ => 0)).bind fun r =>
    (call 9 r.2 (.sysOpen examplePath)).bind fun r' => if r'.1 = .count (some 0) then
      (r'.2.descriptorPlace 0).bind fun place => (answers (call 9) acts r'.2).map fun row =>
        (row.1, contents row.2 place.1) else none

theorem opened_of_onNewFile {acts : List Act} {rs : List Answer} {b : List UInt8}
    (h : onNewFile acts = some (rs, b)) : ∃ s t p x c u, Reached 9 s ∧
      call 9 s (.sysOpen examplePath) = some (.count (some 0), t) ∧
      t.descriptorPlace 0 = some (p, x, c) ∧ answers (call 9) acts t = some (rs, u) ∧
      contents u p = b := by
  have htame : Meets (call 9) Tame makeFile (start vfsInit noVolume fun _ => 0) := by
    decide +kernel
  obtain ⟨⟨rs', s⟩, hrun, h⟩ := Option.bind_eq_some_iff.mp h
  obtain ⟨⟨r, t⟩, hopen, h⟩ := Option.bind_eq_some_iff.mp h
  obtain ⟨hr, h⟩ := Option.ite_none_right_eq_some.mp h
  obtain ⟨⟨p, x, c⟩, hplace, h⟩ := Option.bind_eq_some_iff.mp h
  obtain ⟨⟨rs'', u⟩, hrow, h⟩ := Option.map_eq_some_iff.mp h
  obtain ⟨rfl, rfl⟩ := Prod.mk.inj h
  subst hr
  exact ⟨s, t, p, x, c, u, ⟨_, _, _, _, _, htame, hrun⟩, hopen, hplace, hrow, rfl⟩

/-- One chunk with bytes among others without. -/
theorem sequential_calls_example : ∃ t u p,
    answers (call 9) [.sysWrite 0 [], .sysWrite 0 [1, 2]] t =
      some ([.count (some 0), .count (some 2)], u) ∧
      contents u p = overwrite (contents t p) 0 [1, 2] := by
  have hrow : onNewFile [.sysWrite 0 [], .sysWrite 0 [1, 2]] =
      some ([.count (some 0), .count (some 2)], [1, 2]) := by decide +kernel
  obtain ⟨s, t, p, x, c, u, hreached, hopen, hplace, hrun, -⟩ := opened_of_onNewFile hrow
  have hone : OneChunk [[], [1, 2]] := by
    rw [OneChunk]
    decide
  exact ⟨t, u, p, hrun, ((sequential_calls hreached hopen hplace).1 [[], [1, 2]] u
    (by decide) hrun).1 hone⟩

/-- The second chunk goes over the first. -/
theorem second_chunk_overwrites : ¬ ∀ (rounds : Nat) (s t u : Sys) (path : CStr) (fd p c : Nat)
    (x : FSNode) (chunks : List (List UInt8)), Reached rounds s →
    call rounds s (.sysOpen path) = some (.count (some fd), t) →
    t.descriptorPlace fd = some (p, x, c) →
    (∀ chunk ∈ chunks, chunk.length ≤ 2 ^ 32 - 16) →
    answers (call rounds) (chunks.map (.sysWrite fd)) t =
      some (chunks.map fun chunk => .count (some chunk.length), u) →
    contents u p = overwrite (contents t p) 0 chunks.flatten := by
  intro hall
  have hrow : onNewFile [.sysWrite 0 [1], .sysWrite 0 [2]] =
      some ([.count (some 1), .count (some 1)], [2]) := by decide +kernel
  obtain ⟨s, t, p, x, c, u, hreached, hopen, hplace, hrun, hbytes⟩ := opened_of_onNewFile hrow
  have hlaw := hall 9 s t u examplePath 0 p c x [[1], [2]] hreached hopen hplace (by decide) hrun
  have hlength := congrArg List.length hlaw
  rw [hbytes, length_overwrite (Nat.zero_le _)] at hlength
  have hone : ([2] : List UInt8).length = 1 := rfl
  have htwo : 0 + ([[1], [2]] : List (List UInt8)).flatten.length = 2 := rfl
  omega

end ContinuumOS.Vfs.Sequential
