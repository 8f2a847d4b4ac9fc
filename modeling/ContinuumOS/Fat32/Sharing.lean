import ContinuumOS.Fat32.Reopen

/-! # Two descriptors on one file

Every descriptor keeps the start cluster, the last cluster and the size of its
file for itself, and `fat32_write` puts the first and the last of these into the
file's slot. A descriptor that another one has left behind is stale. Its reads
and seeks are harmless, and so are its writes as long as what they put back and
link is what the file shows or new: then no update is lost. -/
namespace ContinuumOS.Fat32.Sharing
open ContinuumOS.Lib.Effect ContinuumOS.Lib.Memory ContinuumOS.Lib.Blocks
open ContinuumOS.Libc.String
open ContinuumOS.Fat32.Volume ContinuumOS.Fat32.Device ContinuumOS.Fat32.Allocation
open ContinuumOS.Fat32.Names ContinuumOS.Fat32.Directory ContinuumOS.Fat32.Scan
open ContinuumOS.Fat32.Paths ContinuumOS.Fat32.Lookup ContinuumOS.Fat32.Files
open ContinuumOS.Fat32.Descriptor ContinuumOS.Fat32.Refinement ContinuumOS.Fat32.Reopen

section

variable {w w' w₀ : World} {l l' l₀ k : List Nat} {f f' f₀ g : File} {fd : Nat} {b : List UInt8}
  {fds : List Nat}

/-! ## Another size and last cluster

A descriptor with another size and another last cluster is read and written
alike: the size is not looked at before the end, and the last cluster only
where the descriptor stands in no cluster. -/

/-- The descriptor with another size and another last cluster. -/
def aged (f : File) (size last : Nat) : File := { f with fileSize := size, lastCluster := last }

/-- What a step on `f` keeps, for a descriptor with the last cluster `c` instead:
it is looked at nowhere, and was not set unless `f'` has the same. -/
structure Kept (f : File) (c : Nat) (f' : File) (c' : Nat) : Prop where
  unseen : c' = f'.lastCluster ∨ isChained f'.currentCluster = true
  last : c' = f'.lastCluster ∨ c' = c ∧ c ≠ f.lastCluster
  position : f'.position = f.position

theorem Kept.refl {c : Nat} (h : c = f.lastCluster ∨ isChained f.currentCluster = true) :
    Kept f c f c := ⟨h, (em _).imp_right fun hne => ⟨rfl, hne⟩, rfl⟩

theorem Kept.trans {f₁ f₂ : File} {c c₁ c₂ : Nat} (h : Kept f c f₁ c₁) (h' : Kept f₁ c₁ f₂ c₂) :
    Kept f c f₂ c₂ := by
  refine ⟨h'.unseen, h'.last.imp_right fun ⟨he, hne⟩ => ?_, h'.position.trans h.position⟩
  obtain ⟨hc, hf⟩ := h.last.resolve_left hne
  exact ⟨he.trans hc, hf⟩

section

variable {s c : Nat} (h : c = f.lastCluster ∨ isChained f.currentCluster = true)
include h

theorem firstCluster_aged (hrun : firstCluster f w = some ((f', true), w')) :
    ∃ c', firstCluster (aged f s c) w = some ((aged f' s c', true), w') ∧ Kept f c f' c' := by
  by_cases hs : f.startCluster < 2
  · rw [firstCluster, if_pos hs] at hrun
    obtain ⟨a, t, ha, hrest⟩ := bind_eq_some hrun
    by_cases hz : a = 0
    · rw [if_pos hz] at hrest
      cases hrest
    · rw [if_neg hz] at hrest
      cases hrest
      refine ⟨a, ?_, .inl rfl, .inl rfl, rfl⟩
      rw [firstCluster, if_pos (show (aged f s c).startCluster < 2 from hs), bind_run,
        show fat32AllocateCluster (aged f s c).startCluster w = _ from ha, Option.bind_some,
        if_neg hz]
      rfl
  · rw [firstCluster, if_neg hs] at hrun
    cases hrun
    refine ⟨c, ?_, .refl h⟩
    rw [firstCluster, if_neg (show ¬ (aged f s c).startCluster < 2 from hs)]
    rfl

theorem clusterAtEnd_aged (hrun : clusterAtEnd f w = some ((f', true), w')) :
    ∃ c', clusterAtEnd (aged f s c) w = some ((aged f' s c', true), w') ∧ Kept f c f' c' := by
  by_cases hc : ¬ isChained f.currentCluster = true
  · -- the last cluster is the same where it is looked at
    obtain rfl := h.resolve_right hc
    rw [clusterAtEnd, if_pos hc] at hrun
    obtain ⟨a, t, ha, hrest⟩ := bind_eq_some hrun
    by_cases hz : a = 0
    · rw [if_pos hz] at hrest
      cases hrest
    · rw [if_neg hz] at hrest
      cases hrest
      refine ⟨a, ?_, .inl rfl, .inl rfl, rfl⟩
      have hcur : ¬ isChained (aged f s f.lastCluster).currentCluster = true := hc
      rw [clusterAtEnd, if_pos hcur, bind_run]
      change Option.bind (fat32AllocateCluster
        (if f.lastCluster ≥ 2 then f.lastCluster else f.startCluster) w) _ = _
      rw [ha, Option.bind_some, if_neg hz]
      rfl
  · rw [clusterAtEnd, if_neg hc] at hrun
    cases hrun
    refine ⟨c, ?_, .refl h⟩
    rw [clusterAtEnd, if_neg (show ¬ ¬ isChained (aged f s c).currentCluster = true from hc)]
    rfl

theorem nextCluster_aged (hrun : nextCluster f w = some ((f', true), w')) :
    ∃ c', nextCluster (aged f s c) w = some ((aged f' s c', true), w') ∧ Kept f c f' c' := by
  rw [nextCluster, bind_run, get_run, Option.bind_some] at hrun ⊢
  by_cases hp : f.clusterPosition ≥ clusterSize w
  · rw [if_pos hp] at hrun
    rw [if_pos (show (aged f s c).clusterPosition ≥ clusterSize w from hp)]
    by_cases hn : isChained (w.fs.fatTable f.currentCluster % 2 ^ 28) = true
    · rw [if_pos hn] at hrun
      cases hrun
      exact ⟨c, if_pos hn ▸ rfl, .inr hn, (em _).imp_right fun hne => ⟨rfl, hne⟩, rfl⟩
    · rw [if_neg hn] at hrun
      obtain ⟨a, t, ha, hrest⟩ := bind_eq_some hrun
      by_cases hz : a = 0
      · rw [if_pos hz] at hrest
        cases hrest
      · rw [if_neg hz] at hrest
        cases hrest
        refine ⟨a, ?_, .inl rfl, .inl rfl, rfl⟩
        have hnext : ¬ isChained (w.fs.fatTable (aged f s c).currentCluster % 2 ^ 28) = true := hn
        rw [if_neg hnext, bind_run,
          show fat32AllocateCluster (aged f s c).currentCluster w = _ from ha, Option.bind_some,
          if_neg hz]
        rfl
  · rw [if_neg hp] at hrun
    cases hrun
    exact ⟨c, if_neg hp ▸ rfl, .refl h⟩

theorem clusterToWrite_aged (hrun : clusterToWrite f w = some ((f', true), w')) :
    ∃ c', clusterToWrite (aged f s c) w = some ((aged f' s c', true), w') ∧ Kept f c f' c' := by
  obtain ⟨⟨f₁, ok⟩, w₁, h₁, hrest⟩ := bind_eq_some hrun
  cases ok with
  | false => cases hrest
  | true =>
  obtain ⟨⟨f₂, ok⟩, w₂, h₂, h₃⟩ := bind_eq_some hrest
  cases ok with
  | false => cases h₃
  | true =>
  obtain ⟨c₁, k₁, e₁⟩ := firstCluster_aged (s := s) h h₁
  obtain ⟨c₂, k₂, e₂⟩ := clusterAtEnd_aged (s := s) e₁.unseen h₂
  obtain ⟨c₃, k₃, e₃⟩ := nextCluster_aged (s := s) e₂.unseen h₃
  refine ⟨c₃, ?_, (e₁.trans e₂).trans e₃⟩
  simp only [clusterToWrite, bind_run, k₁, Option.bind_some, not_true_eq_false, if_false, k₂, k₃]

end

theorem writeChunk_le {src : List UInt8} {n : Nat} (hrun : writeChunk f src w = some (some n, w')) :
    n ≤ src.length := by
  have hrun := get_bind_eq_some hrun
  split at hrun
  all_goals
    obtain ⟨old, w₁, -, hrest⟩ := bind_eq_some hrun
    cases old with
    | none => cases hrest
    | some buf =>
      obtain ⟨ok, w₂, -, hlast⟩ := bind_eq_some hrest
      cases ok <;> cases hlast
      exact Nat.min_le_left _ _

/-- **The write loop on a descriptor with another size and last cluster.** -/
theorem writeLoop_aged : ∀ {rounds : Nat} {w : World} {f : File} {src : List UInt8}
    {written s c n : Nat}, (c = f.lastCluster ∨ isChained f.currentCluster = true) →
    f.position ≤ s → f.position + src.length < 2 ^ 32 →
    writeLoop rounds f src written w = some ((f', n, true), w') →
    ∃ c', writeLoop rounds (aged f s c) src written w =
        some ((aged f' (max s (f.position + src.length)) c', n, true), w') ∧
      (c' = f'.lastCluster ∨ c' = c ∧ c ≠ f.lastCluster)
  | 0, w, f, src, written, s, c, n, h, hs, _, hrun => by
    by_cases hsrc : src = []
    · subst hsrc
      cases hrun
      refine ⟨c, ?_, (Kept.refl h).last⟩
      rw [List.length_nil, Nat.add_zero, Nat.max_eq_left hs]
      rfl
    · rw [writeLoop, if_neg hsrc] at hrun
      cases hrun
  | rounds + 1, w, f, src, written, s, c, n, h, hs, hlt, hrun => by
    by_cases hsrc : src = []
    · subst hsrc
      cases hrun
      refine ⟨c, ?_, (Kept.refl h).last⟩
      rw [writeLoop, if_pos rfl, List.length_nil, Nat.add_zero, Nat.max_eq_left hs]
      rfl
    rw [writeLoop, if_neg hsrc] at hrun
    obtain ⟨⟨f₁, ok⟩, w₁, h₁, hrest⟩ := bind_eq_some hrun
    cases ok with
    | false => cases hrest
    | true =>
    obtain ⟨m, w₂, h₂, h₃⟩ := bind_eq_some hrest
    cases m with
    | none => cases h₃
    | some m =>
    obtain ⟨c₁, k₁, e₁⟩ := clusterToWrite_aged (s := s) h h₁
    have hm := writeChunk_le h₂
    have hp : (advanced f₁ m).position = f.position + m := by
      change (f₁.position + m) % 2 ^ 32 = _
      rw [e₁.position]
      exact Nat.mod_eq_of_lt (by omega)
    obtain ⟨c₂, k₃, e₃⟩ := writeLoop_aged (f := advanced f₁ m) (s := max s (f.position + m))
      (c := c₁) e₁.unseen (by rw [hp]; exact Nat.le_max_right _ _)
      (by rw [hp, List.length_drop]; omega) h₃
    have hadv : advanced (aged f₁ s c₁) m = aged (advanced f₁ m) (max s (f.position + m)) c₁ := by
      have hsize : (if (f₁.position + m) % 2 ^ 32 > s then (f₁.position + m) % 2 ^ 32 else s) =
          max s (f.position + m) := by
        rw [show (f₁.position + m) % 2 ^ 32 = f.position + m from hp]
        split <;> omega
      rw [← hsize]
      rfl
    refine ⟨c₂, ?_, e₃.imp_right fun he => ?_⟩
    · have hmax : max (max s (f.position + m)) (f.position + m + (src.length - m)) =
          max s (f.position + src.length) := by omega
      rw [hp, List.length_drop, hmax] at k₃
      simp only [writeLoop, if_neg hsrc, bind_run, k₁, Option.bind_some, not_true_eq_false,
        if_false]
      rw [show writeChunk (aged f₁ s c₁) src = writeChunk f₁ src from rfl, h₂]
      simp only [Option.bind_some, hadv, k₃]
    · obtain ⟨rfl, hne⟩ := he
      exact e₁.last.resolve_left hne

theorem stepped_aged (s c n : Nat) : stepped w (aged f s c) n = aged (stepped w f n) s c := by
  by_cases h : (f.clusterPosition + n) % 2 ^ 32 ≥ clusterSize w
  · have hf : stepped w f n = { f with
        position := (f.position + n) % 2 ^ 32
        clusterPosition := 0
        currentCluster := fat32GetNextCluster w f.currentCluster } := if_pos h
    rw [hf]
    exact if_pos h
  · have hf : stepped w f n = { f with
        position := (f.position + n) % 2 ^ 32
        clusterPosition := (f.clusterPosition + n) % 2 ^ 32 } := if_neg h
    rw [hf]
    exact if_neg h

theorem readLoop_aged (size s c : Nat) : ∀ (rounds : Nat) (w : World) (f : File)
    (bytes : List UInt8), readLoop size rounds (aged f s c) bytes w =
      (readLoop size rounds f bytes w).map fun r => ((r.1.1, aged r.1.2 s c), r.2)
  | 0, _, _, _ => rfl
  | rounds + 1, w, f, bytes => by
    rw [readLoop, readLoop]
    by_cases hm : bytes.length < size ∧ f.currentCluster < endCluster
    · have hm' : bytes.length < size ∧ (aged f s c).currentCluster < endCluster := hm
      rw [if_pos hm, if_pos hm', bind_run, bind_run]
      change Option.bind (fat32ReadCluster f.currentCluster w) _ = _
      cases fat32ReadCluster f.currentCluster w with
      | none => rfl
      | some r =>
        obtain ⟨old, t⟩ := r
        cases old with
        | none => rfl
        | some buf =>
          simp only [Option.bind_some, bind_run, get_run]
          rw [← readLoop_aged size s c rounds]
          exact congrArg (fun g => readLoop size rounds g _ t) (stepped_aged s c _)
    · have hm' : ¬ (bytes.length < size ∧ (aged f s c).currentCluster < endCluster) := hm
      rw [if_neg hm, if_neg hm']
      rfl

/-! ## What a descriptor knows of its file -/

/-- The chain `l` as the descriptor knows it. -/
structure Knows (size : Nat) (l : List Nat) (f : File) : Prop where
  start : f.startCluster = l.headD 0
  cover : f.fileSize ≤ l.length * size
  last : f.lastCluster ∈ l ∨ l = [] ∧ f.lastCluster = 0

/-- A descriptor of the file with the entry of `f₀`, the clusters `l` and the
bytes `b`. It may know an earlier size and the chain as it was then. -/
structure Holder (size : Nat) (l : List Nat) (b : List UInt8) (f₀ f : File) : Prop where
  entry : SameEntry f₀ f
  fileSize_le : f.fileSize ≤ b.length
  position_le : f.position ≤ f.fileSize
  seen : ∃ k, k <+: l ∧ Knows size k f ∧ Place size k f.position f.currentCluster f.clusterPosition

theorem Holder.grown {size : Nat} {b' : List UInt8} (h : Holder size l b f₀ f) (hl : l <+: l')
    (hb : b.length ≤ b'.length) : Holder size l' b' f₀ f := by
  obtain ⟨k, hk, hs⟩ := h.seen
  exact ⟨h.entry, h.fileSize_le.trans hb, h.position_le, k, hk.trans hl, hs⟩

theorem holder_of_content (h : Content w l f b) (he : SameEntry f₀ f) :
    Holder (clusterSize w) l b f₀ f := by
  refine ⟨he, h.fileSize.le, h.fileSize ▸ h.position_le, l, List.prefix_refl l,
    ⟨h.start, h.fileSize ▸ h.stored.length_le, ?_⟩, h.place⟩
  rw [h.last]
  by_cases hne : l = []
  · subst hne
    exact .inr ⟨rfl, rfl⟩
  · exact .inl (Chain.last_mem hne)

/-- What a descriptor knew of the chain holds of the whole chain, or it knew none. -/
theorem Knows.renew {size : Nat} (h : Knows size k f) (hk : k <+: l)
    (hcover : f.fileSize ≤ l.length * size) :
    ∃ m, m <+: l ∧ (m = [] ∨ m = l) ∧ Knows size m f ∧ (k ≠ [] → m = l) := by
  obtain ⟨more, rfl⟩ := hk
  cases k with
  | nil => exact ⟨[], List.nil_prefix, .inl rfl, h, fun hne => absurd rfl hne⟩
  | cons a k =>
    refine ⟨_, List.prefix_refl _, .inr rfl, ⟨h.start, hcover, ?_⟩, fun _ => rfl⟩
    exact .inl (List.mem_append_left more (h.last.resolve_right fun he => nomatch he.1))

theorem content_at {g : File} (h : Content w l g b) (hstart : f.startCluster = l.headD 0)
    (hlast : f.lastCluster = l.getLastD 0) (hsize : f.fileSize = b.length)
    (hplace : Place (clusterSize w) l f.position f.currentCluster f.clusterPosition)
    (hle : f.position ≤ b.length) : Content w l f b :=
  ⟨h.chain, h.stored, h.tight, hstart, hlast, hsize, h.fileSize_lt, hplace, hle⟩

/-- The descriptor that opening the file would make. -/
def reopened (f₀ : File) (l : List Nat) (b : List UInt8) : File :=
  { f₀ with
    startCluster := l.headD 0
    currentCluster := l.headD 0
    fileSize := b.length
    position := 0
    clusterPosition := 0
    lastCluster := l.getLastD 0 }

/-- The descriptors `fds` share the file with the bytes `b` in the clusters `l`.
It was opened on `w₀`, where its clusters were `l₀`. -/
structure Shared (w₀ : World) (l₀ : List Nat) (f₀ : File) (fds : List Nat) (w : World)
    (l : List Nat) (b : List UInt8) : Prop where
  calm : Calm w
  inUse : f₀.inUse = true
  frame : FileFrame w₀ l₀ w l f₀
  content : Content w l (reopened f₀ l b) b
  entry : Entry w l (reopened f₀ l b)
  fd_lt : ∀ fd ∈ fds, fd < maxOpenFiles
  each : ∀ fd ∈ fds, Holder (clusterSize w) l b f₀ (w.openFiles fd)

theorem Shared.isOpen (h : Shared w₀ l₀ f₀ fds w l b) (hfd : fd ∈ fds) :
    fileOf w fd = some (w.openFiles fd) := by
  obtain ⟨-, -, -, hu⟩ := (h.each fd hfd).entry
  exact if_pos ⟨h.fd_lt fd hfd, hu.trans h.inUse⟩

theorem Shared.put (h : Shared w₀ l₀ f₀ fds w l b) (hfd : fd < maxOpenFiles)
    (hf : Holder (clusterSize w) l b f₀ f) {fds' : List Nat}
    (hfds : ∀ g ∈ fds', g = fd ∨ g ∈ fds) : Shared w₀ l₀ f₀ fds' (w.setFile fd f) l b := by
  have hframe : FileFrame w l (w.setFile fd f) l f₀ := fileFrame_setFile f l
  refine ⟨hframe.calm h.calm, h.inUse, h.frame.trans hframe,
    content_congr h.content rfl fun _ _ => rfl, ⟨h.entry.inRange, h.entry.index_lt, h.entry.apart,
      h.entry.used, h.entry.cluster, h.entry.size⟩, fun g hg => ?_, fun g hg => ?_⟩
  · rcases hfds g hg with rfl | hg
    · exact hfd
    · exact h.fd_lt g hg
  · by_cases hne : g = fd
    · subst hne
      rw [setFile_openFiles_same]
      exact hf
    · rw [show (w.setFile fd f).openFiles g = w.openFiles g from if_neg hne]
      exact h.each g ((hfds g hg).resolve_left hne)

theorem Shared.moved (h : Shared w₀ l₀ f₀ fds w l b) (hfd : fd ∈ fds)
    (hf : Holder (clusterSize w) l b f₀ f) : Shared w₀ l₀ f₀ fds (w.setFile fd f) l b :=
  h.put (h.fd_lt fd hfd) hf fun _ hg => .inr hg

/-! ## Seeking and reading -/

theorem Shared.seek (h : Shared w₀ l₀ f₀ fds w l b) (hfd : fd ∈ fds) (p : Nat) :
    ∃ w', (Op.seek p).run fd w = some (.moved true, w') ∧ Shared w₀ l₀ f₀ fds w' l b := by
  have hh := h.each fd hfd
  generalize hf : w.openFiles fd = f at hh
  obtain ⟨k, hk, hknows, -⟩ := hh.seen
  obtain ⟨m, hm, hmk, hknows, -⟩ := hknows.renew hk
    (hh.fileSize_le.trans h.content.stored.length_le)
  have hchain : Chain w m := by
    rcases hmk with rfl | rfl
    · exact ⟨trivial, List.nodup_nil, fun _ hc => nomatch hc⟩
    · exact h.content.chain
  generalize hq : (if p > f.fileSize then f.fileSize else p) = q
  have hqle : q ≤ f.fileSize := by
    rw [← hq]
    split <;> omega
  obtain ⟨f', r, hrun, hmv, hsum, hplace⟩ := seekLoop_spec h.calm hchain hknows.cover (q + 1)
    { f with
      currentCluster := f.startCluster
      position := 0
      clusterPosition := 0 } q
    (by rw [hknows.start]; exact place_start _ m) (by change 0 + q ≤ _; omega) (by omega)
  have hsum : f'.position + r = q := hsum.trans (Nat.zero_add q)
  have hmoved : Moved f { f' with clusterPosition := r, position := f'.position + r } := by
    rw [Moved] at hmv ⊢
    rw [hmv]
  refine ⟨w.setFile fd { f' with clusterPosition := r, position := f'.position + r }, ?_,
    h.moved hfd ⟨hh.entry.trans hmoved.sameEntry, ?_, ?_, m, hm, ⟨?_, ?_, ?_⟩, hplace⟩⟩
  · simp only [Op.run, fat32Seek, bind_run, get_run, Option.bind_some, h.isOpen hfd, hf, hq, hrun,
      setFile, modify_run, pure_run]
  · rw [hmoved]
    exact hh.fileSize_le
  · rw [hmoved]
    change f'.position + r ≤ f.fileSize
    omega
  · rw [hmoved]
    exact hknows.start
  · rw [hmoved]
    exact hknows.cover
  · rw [hmoved]
    exact hknows.last

/-- The descriptor that shows all of the file, at the place of `f`. -/
abbrev renewed (f : File) (l : List Nat) (b : List UInt8) : File := aged f b.length (l.getLastD 0)

theorem place_grown {size p c r : Nat} (h : Place size k p c r) (hk : k <+: l)
    (hlt : p < k.length * size) : Place size l p c r := by
  obtain ⟨q, hp, hr, hq | ⟨rfl, hz, -⟩⟩ := h
  · obtain ⟨more, rfl⟩ := hk
    refine ⟨q, hp, hr, .inl ?_⟩
    rw [List.getElem?_append_left (List.getElem?_eq_some_iff.mp hq).1]
    exact hq
  · omega

theorem Shared.read (h : Shared w₀ l₀ f₀ fds w l b) (hfd : fd ∈ fds) {n : Nat}
    (hn : (w.openFiles fd).position + n < 2 ^ 32) :
    ∃ r w', (Op.read n).run fd w = some (r, w') ∧ Shared w₀ l₀ f₀ fds w' l b := by
  have hh := h.each fd hfd
  have hof := h.isOpen hfd
  generalize w.openFiles fd = f at hh hof hn
  by_cases hend : f.position ≥ f.fileSize
  · -- at the end that the descriptor knows nothing is read
    refine ⟨.bytes (some []), w, ?_, h⟩
    simp only [Op.run, fat32Read, bind_run, get_run, Option.bind_some, hof, ite_run, if_pos hend,
      pure_run]
  · obtain ⟨k, hk, hknows, hplace⟩ := hh.seen
    have hne : k ≠ [] := by
      rintro rfl
      have := hknows.cover
      rw [List.length_nil, Nat.zero_mul] at this
      omega
    have hcover := hknows.cover
    obtain ⟨m, -, -, hknows', hm⟩ := hknows.renew hk
      (hh.fileSize_le.trans h.content.stored.length_le)
    obtain rfl := hm hne
    have hc : Content w m (renewed f m b) b := content_at h.content hknows'.start rfl rfl
      (place_grown hplace hk (show f.position < _ by omega)) (hh.position_le.trans hh.fileSize_le)
    generalize hsize : (if f.position + n > f.fileSize then f.fileSize - f.position else n) = size
    have hsle : f.position + size ≤ f.fileSize := by
      rw [← hsize]
      split <;> omega
    obtain ⟨f', hrun, hcont, hmv, hpos⟩ := readLoop_spec h.calm size (2 * size + 2) (renewed f m b)
      [] hc (Nat.zero_le _) (hsle.trans hh.fileSize_le)
      (by simp only [List.length_nil]; split <;> omega)
    have hpos : f'.position = f.position + size := hpos
    generalize [] ++ List.take _ _ = bytes at hrun
    have haged : readLoop size (2 * size + 2) f [] w =
        some ((some bytes, aged f' f.fileSize f.lastCluster), w) :=
      (readLoop_aged size f.fileSize f.lastCluster (2 * size + 2) w (renewed f m b) []).trans
        (by rw [hrun, Option.map_some])
    have hmod : (f.position + n) % 2 ^ 32 = f.position + n := Nat.mod_eq_of_lt hn
    refine ⟨.bytes (some bytes), w.setFile fd (aged f' f.fileSize f.lastCluster), ?_, h.moved hfd
      ⟨hh.entry.trans ?_, hh.fileSize_le, ?_, m, List.prefix_refl m, ⟨?_, hknows'.cover,
        hknows'.last⟩, hcont.place⟩⟩
    · simp only [Op.run, fat32Read, bind_run, get_run, Option.bind_some, hof, ite_run, if_neg hend,
        hmod, hsize, h.calm.mallocs.kmalloc h.calm.geometry.clusterSize_pos, if_true, haged,
        Files.setFile, modify_run, pure_run]
    · rw [hmv]
      exact ⟨rfl, rfl, rfl, rfl⟩
    · exact hpos.trans_le hsle
    · exact hcont.start

/-! ## Writing -/

/-- The call stays below `2 ^ 32`, and the clusters of the file and the free
ones are enough for it. -/
def Ordinary (w : World) (fd : Nat) : Op → Prop
  | .seek _ => True
  | .read n => (w.openFiles fd).position + n < 2 ^ 32
  | .write src => (w.openFiles fd).position + src.length < 2 ^ 32 ∧ ∀ l, Chain w l →
      l.headD 0 = slotCluster (entrySlot w (w.openFiles fd)) →
      Fits w l ((w.openFiles fd).position + src.length)

/-- A write of `n` bytes puts nothing older back: the start cluster is the one in
the slot, the size in the slot is not above the descriptor's own and the end of
the write, and behind the chain the last cluster is still the last one. -/
def PutsNewest (w : World) (f : File) (n : Nat) : Prop :=
  f.startCluster = slotCluster (entrySlot w f) ∧
    slotFileSize (entrySlot w f) ≤ max f.fileSize (f.position + n) ∧
    (f.currentCluster = endCluster → isChained (nextOf w f.lastCluster) = false)

instance (w : World) (f : File) (n : Nat) : Decidable (PutsNewest w f n) :=
  inferInstanceAs (Decidable (_ ∧ _ ∧ _))

/-- A descriptor that writes bytes puts nothing older back. -/
def Newest (w : World) (fd : Nat) : Op → Prop
  | .write src => src ≠ [] → PutsNewest w (w.openFiles fd) src.length
  | _ => True

/-- A chain that ends where an earlier part of it has a cluster is that part. -/
theorem ends_in {c : Nat} (hw : Calm w) (hl : Chain w l) (hk : k <+: l) (hc : c ∈ k)
    (hend : isChained (nextOf w c) = false) : k = l ∧ l.getLastD 0 = c := by
  obtain ⟨more, rfl⟩ := hk
  obtain ⟨i, hi, rfl⟩ := List.getElem_of_mem hc
  have hget : (k ++ more)[i]? = some k[i] := by
    rw [List.getElem?_append_left hi, List.getElem?_eq_getElem hi]
  have hlast : (k ++ more)[i + 1]? = none := by
    rw [hl.next hget] at hend
    cases hn : (k ++ more)[i + 1]? with
    | none => rfl
    | some d =>
      rw [hn, Option.getD_some,
        (hl.inRange d (List.mem_of_getElem? hn)).isChained hw.geometry] at hend
      cases hend
  have hlen := List.getElem?_eq_none_iff.mp hlast
  rw [List.length_append] at hlen
  obtain rfl : more = [] := List.length_eq_zero_iff.mp (by omega)
  refine ⟨(List.append_nil k).symm, ?_⟩
  rw [List.append_nil, List.getLastD_eq_getLast?, List.getLast?_eq_getElem?,
    show k.length - 1 = i by omega, List.getElem?_eq_getElem hi]
  rfl

theorem entrySlot_congr (h : SameEntry f f₀) : entrySlot w f₀ = entrySlot w f := by
  rw [entrySlot, entrySlot, h.2.1, h.2.2.1]

/-- A descriptor that puts nothing older back writes like one that shows all of
the file. -/
theorem Shared.content_renewed (h : Shared w₀ l₀ f₀ fds w l b)
    (hf : Holder (clusterSize w) l b f₀ f) {n : Nat} (hp : PutsNewest w f n) :
    Content w l (renewed f l b) b ∧ b.length ≤ max f.fileSize (f.position + n) ∧
      (f.lastCluster = l.getLastD 0 ∨ isChained f.currentCluster = true) ∧
      (f.lastCluster ∈ l ∨ f.lastCluster = l.getLastD 0) := by
  obtain ⟨hstart, hsize, hend⟩ := hp
  have hslot : entrySlot w f = entrySlot w (reopened f₀ l b) := by
    rw [entrySlot_congr (show SameEntry (reopened f₀ l b) f from hf.entry)]
  have hstart : f.startCluster = l.headD 0 := by
    rw [hstart, hslot]
    exact h.entry.cluster
  have hsize : b.length ≤ max f.fileSize (f.position + n) := by
    rw [hslot, show slotFileSize _ = _ from h.entry.size] at hsize
    exact hsize
  obtain ⟨k, hk, hknows, hplace⟩ := hf.seen
  have hle := hf.position_le.trans hf.fileSize_le
  obtain ⟨q, hpos, hr, hq | ⟨rfl, hz, hcur⟩⟩ := id hplace
  · -- inside the chain
    have hmem : f.currentCluster ∈ l := hk.subset (List.mem_of_getElem? hq)
    obtain ⟨more, rfl⟩ := hk
    refine ⟨content_at h.content hstart rfl rfl ⟨q, hpos, hr, .inl ?_⟩ hle, hsize,
      .inr ((h.content.chain.inRange _ hmem).isChained h.calm.geometry), .inl ?_⟩
    · rw [List.getElem?_append_left (List.getElem?_eq_some_iff.mp hq).1]
      exact hq
    · refine List.mem_append_left more (hknows.last.resolve_right fun he => ?_)
      rw [he.1] at hq
      cases hq
  · by_cases hne : k = []
    · -- the file has no cluster
      subst hne
      obtain rfl : l = [] := by
        by_contra hne
        have := (h.content.chain.inRange _ (Chain.head_mem hne)).1
        rw [← hstart, hknows.start] at this
        exact absurd this (by decide)
      have hlast : f.lastCluster = 0 := (hknows.last.resolve_left List.not_mem_nil).2
      exact ⟨content_at h.content hstart rfl rfl hplace hle, hsize, .inl hlast, .inr hlast⟩
    · -- behind the end of the chain
      rw [if_neg hne] at hcur
      have hmem := hknows.last.resolve_right fun he => hne he.1
      obtain ⟨rfl, hlast⟩ := ends_in h.calm h.content.chain hk hmem (hend hcur)
      exact ⟨content_at h.content hstart rfl rfl hplace hle, hsize, .inl hlast.symm, .inl hmem⟩

/-- **A write that puts nothing older back.** -/
theorem Shared.write (h : Shared w₀ l₀ f₀ fds w l b) (hfd : fd ∈ fds) {src : List UInt8}
    (hsrc : src ≠ []) (hb : (w.openFiles fd).position + src.length < 2 ^ 32)
    (hroom : Fits w l ((w.openFiles fd).position + src.length))
    (hp : PutsNewest w (w.openFiles fd) src.length) :
    ∃ w' l', (Op.write src).run fd w = some (.count src.length, w') ∧
      Shared w₀ l₀ f₀ fds w' l' (overwrite b (w.openFiles fd).position src) := by
  have hh := h.each fd hfd
  have hof := h.isOpen hfd
  generalize hfile : w.openFiles fd = f at *
  obtain ⟨hc, hsize, hlast, hmem⟩ := h.content_renewed hh hp
  obtain ⟨w₁, l₁, f₁, hrun, hf, hopen, he, hpos, hcont⟩ := writeLoop_spec src.length w l
    (renewed f l b) b src 0 h.calm hc hb hroom (Nat.le_refl _)
  rw [Nat.zero_add] at hrun
  have hcont : Content w₁ l₁ f₁ (overwrite b f.position src) := hcont
  have hw₁ := hf.calm h.calm
  have hlen : (overwrite b f.position src).length = max b.length (f.position + src.length) :=
    length_overwrite (hh.position_le.trans hh.fileSize_le)
  -- the descriptor itself gets to the same, its last cluster apart
  obtain ⟨c, haged, hcl⟩ := writeLoop_aged (f := renewed f l b) (s := f.fileSize)
    (c := f.lastCluster) hlast hh.position_le hb hrun
  have hnew : max f.fileSize (f.position + src.length) = f₁.fileSize := by
    rw [hcont.fileSize, hlen]
    have := hh.fileSize_le
    omega
  have haged : writeLoop src.length f src 0 w =
      some ((aged f₁ f₁.fileSize c, src.length, true), w₁) := by
    rw [← hnew]
    exact haged
  have heo : SameEntry (reopened f₀ l b) (renewed f l b) := hh.entry
  have he₀ : SameEntry f₀ f₁ := hh.entry.trans he
  obtain ⟨hframe, hstored, hentry⟩ := updated_stores fd hw₁ hf
    (h.entry.congr heo ⟨hc.start, rfl⟩) he hcont (aged f₁ f₁.fileSize c)
  have hframe : FileFrame w l _ l₁ f₀ := hframe.congr_entry hh.entry
  refine ⟨updated (w₁.setFile fd (aged f₁ f₁.fileSize c)) f₁, l₁,
    write_run h.calm hof (fun hz => hsrc (List.length_eq_zero_iff.mp hz)) hw₁ haged hentry.inRange,
    hframe.calm h.calm, h.inUse, h.frame.trans hframe,
    content_at hstored rfl rfl rfl (place_start _ l₁) (Nat.zero_le _),
    hentry.congr ⟨he₀.1.symm, he₀.2.1.symm, he₀.2.2.1.symm, he₀.2.2.2.symm⟩
      ⟨hstored.start.symm, hstored.fileSize.symm⟩, h.fd_lt, fun g hg => ?_⟩
  by_cases hne : g = fd
  · subst hne
    have hown := holder_of_content hstored he₀
    rw [show (updated (w₁.setFile g (aged f₁ f₁.fileSize c)) f₁).openFiles g = aged f₁ f₁.fileSize c
      from setFile_openFiles_same]
    rcases hcl with rfl | ⟨rfl, hold⟩
    · exact hown
    · -- an older last cluster is still one of the file
      have hm : f.lastCluster ∈ l₁ := hf.grown.subset (hmem.resolve_right hold)
      exact ⟨hown.entry, hown.fileSize_le, hown.position_le, l₁, List.prefix_refl l₁,
        ⟨hstored.start, hstored.fileSize ▸ hstored.stored.length_le, .inl hm⟩, hstored.place⟩
  · rw [show (updated (w₁.setFile fd (aged f₁ f₁.fileSize c)) f₁).openFiles g = w.openFiles g
      from (if_neg hne).trans (congrFun hopen g), SameGeometry.clusterSize_eq hframe.geometry]
    exact (h.each g hg).grown hf.grown (by omega)

/-! ## Interleavings -/

/-- What the file should hold after a call: a write that succeeded has put its
bytes at the position of its descriptor. -/
def expected (w : World) (fd : Nat) (b : List UInt8) : Op → Result → List UInt8
  | .write src, .count n => if n = src.length then overwrite b (w.openFiles fd).position src else b
  | _, _ => b

/-- Calls on the descriptors `fds`, in any order, with the bytes the file should
hold; `Guard` is what is asked of the state before each call. -/
inductive Interleaved (Guard : World → Nat → Op → Prop) (fds : List Nat) (w : World)
    (b : List UInt8) : World → List UInt8 → Prop
  | start : Interleaved Guard fds w b w b
  | call {w₁ w₂ : World} {b₁ : List UInt8} {fd : Nat} {op : Op} {r : Result}
      (h : Interleaved Guard fds w b w₁ b₁) (fd_mem : fd ∈ fds) (ordinary : Ordinary w₁ fd op)
      (guard : Guard w₁ fd op) (run : op.run fd w₁ = some (r, w₂)) :
      Interleaved Guard fds w b w₂ (expected w₁ fd b₁ op r)

/-- **Each call keeps the file shared.** -/
theorem Shared.call (h : Shared w₀ l₀ f₀ fds w l b) (hfd : fd ∈ fds) {op : Op} {r : Result}
    (hop : Ordinary w fd op) (hnew : Newest w fd op) (hrun : op.run fd w = some (r, w')) :
    ∃ l', Shared w₀ l₀ f₀ fds w' l' (expected w fd b op r) := by
  cases op with
  | seek p =>
    obtain ⟨t, ht, hs⟩ := h.seek hfd p
    cases hrun.symm.trans ht
    exact ⟨l, hs⟩
  | read n =>
    obtain ⟨_, t, ht, hs⟩ := h.read hfd hop
    cases hrun.symm.trans ht
    exact ⟨l, hs⟩
  | write src =>
    by_cases hsrc : src = []
    · -- nothing is written
      subst hsrc
      rw [Op.run, fat32Write] at hrun
      simp only [bind_run, get_run, Option.bind_some, h.isOpen hfd] at hrun
      cases hrun
      exact ⟨l, by rw [expected, overwrite_nil, ite_self]; exact h⟩
    have hh := h.each fd hfd
    have hslot : slotCluster (entrySlot w (w.openFiles fd)) = l.headD 0 := by
      rw [entrySlot_congr (show SameEntry (reopened f₀ l b) (w.openFiles fd) from hh.entry)]
      exact h.entry.cluster
    obtain ⟨t, l', ht, hs⟩ := h.write hfd hsrc hop.1 (hop.2 l h.content.chain hslot.symm)
      (hnew hsrc)
    cases hrun.symm.trans ht
    rw [expected, if_pos rfl]
    exact ⟨l', hs⟩

theorem Shared.run (h : Shared w₀ l₀ f₀ fds w l b) {b' : List UInt8}
    (hrun : Interleaved Newest fds w b w' b') : ∃ l', Shared w₀ l₀ f₀ fds w' l' b' := by
  induction hrun with
  | start => exact ⟨l, h⟩
  | call _ hfd hop hnew hcall ih =>
    obtain ⟨l₁, h₁⟩ := ih
    exact h₁.call hfd hop hnew hcall

/-! ## Two descriptors -/

theorem lookup_opened {path : CStr} {x : Lookup} (hw : Calm w₀) (ha : Apart w₀ l₀)
    (hx : fat32LookupPath path w₀ = some (some x, w₀)) (hp : path ≠ [] ∧ path ≠ [slash])
    (hres : Resolved w₀ x) (hdir : x.info.isDirectory = false) (last : Nat) :
    fat32LookupPath path (w₀.setFile fd (openedFile x last)) =
      some (some x, w₀.setFile fd (openedFile x last)) := by
  have hfr : FileFrame w₀ l₀ (w₀.setFile fd (openedFile x last)) l₀ (openedFile x last) :=
    fileFrame_setFile _ l₀
  obtain ⟨-, -, -, -, hkind, st, hinfo⟩ := Resolved.slot hw ha hres
  have hattr : slotAttributes (slotAt (clusterBuf w₀ x.entryCluster) x.entryIndex) &&&
      attrDirectory = 0 := by
    rw [hinfo] at hdir
    exact of_decide_eq_false hdir |> not_not.mp
  have hlook := lookupPath_follows (w := w₀) ⟨hw, ha.directories⟩
    (follows_of_frame hw (hfr.calm hw) ha hfr hkind hattr) hp hx
  have hsame : updateWith (refound (w₀.setFile fd (openedFile x last))) x = x := by
    obtain ⟨info, dir, cluster, index⟩ := x
    change info = slotInfo st (slotAt (clusterBuf w₀ cluster) index) at hinfo
    subst hinfo
    rfl
  rw [hsame] at hlook
  exact hlook

theorem shared_of_opens {g : Nat} {path : CStr} {x : Lookup} (hw : Calm w₀) (ha : Apart w₀ l₀)
    (hx : fat32LookupPath path w₀ = some (some x, w₀)) (hf : FileOk w₀ x l₀)
    (h₁ : fat32Open path w₀ = some (some fd, w)) (h₂ : fat32Open path w = some (some g, w')) :
    fd ≠ g ∧ Shared w₀ l₀ (openedFile x (l₀.getLastD 0)) [fd, g] w' l₀
      (fileBytes w₀ l₀ x.info.size) := by
  obtain ⟨hdir, hp, hres⟩ := open_resolved hw ha hx h₁
  have hentry := Resolved.entry hw ha hres
  obtain ⟨hfd, -, rfl⟩ := open_found hw.geometry hx hf hdir h₁
  have hframe : FileFrame w₀ l₀ (w₀.setFile fd (openedFile x (l₀.getLastD 0))) l₀
      (openedFile x (l₀.getLastD 0)) := fileFrame_setFile _ l₀
  have hf' : FileOk (w₀.setFile fd (openedFile x (l₀.getLastD 0))) x l₀ :=
    ⟨⟨hf.chain.linked, hf.chain.nodup, hf.chain.inRange⟩, hf.start, hf.tight, hf.cover⟩
  obtain ⟨hg, hfree, rfl⟩ := open_found (hframe.calm hw).geometry
    (lookup_opened hw ha hx hp hres hdir _) hf' hdir h₂
  have hne : fd ≠ g := by
    rintro rfl
    rw [setFile_openFiles_same] at hfree
    cases hfree
  have hlt : x.info.size < 2 ^ 32 := by
    obtain ⟨-, -, -, -, -, st, hinfo⟩ := Resolved.slot hw ha hres
    rw [hinfo]
    exact readWord_lt _ _
  have hlen : (fileBytes w₀ l₀ x.info.size).length = x.info.size := by simp [fileBytes]
  have hcont : Content w₀ l₀ (openedFile x (l₀.getLastD 0)) (fileBytes w₀ l₀ x.info.size) := by
    refine ⟨hf.chain, stored_fileBytes hw.geometry hf.cover, by rw [hlen]; exact hf.tight, hf.start,
      rfl, hlen.symm, by omega, ?_, Nat.zero_le _⟩
    rw [show (openedFile x (l₀.getLastD 0)).currentCluster = l₀.headD 0 from hf.start]
    exact place_start _ l₀
  have hholder : Holder (clusterSize w₀) l₀ _ (openedFile x (l₀.getLastD 0)) _ :=
    holder_of_content hcont ⟨rfl, rfl, rfl, rfl⟩
  have hs : Shared w₀ l₀ (openedFile x (l₀.getLastD 0)) [] w₀ l₀ (fileBytes w₀ l₀ x.info.size) :=
    ⟨hw, rfl, .refl w₀ l₀ _, content_at hcont rfl rfl rfl (place_start _ l₀) (Nat.zero_le _),
      hentry.congr ⟨rfl, rfl, rfl, rfl⟩ ⟨hf.start.symm, hlen⟩, by simp, by simp⟩
  have hs₁ : Shared w₀ l₀ _ [fd] _ l₀ _ := hs.put hfd hholder (by simp)
  exact ⟨hne, hs₁.put hg hholder fun k hk =>
    (List.mem_pair.mp hk).symm.imp_right List.mem_singleton.mpr⟩

theorem close_eq (h : Files.fileOf w fd = some f) :
    fat32Close fd w = some ((), w.setFile fd closedFile) := by
  simp only [fat32Close, bind_run, get_run, Option.bind_some, h, Files.setFile, modify_run]

theorem Shared.reopen {g : Nat} {path : CStr} {x : Lookup} (hw : Calm w₀) (ha : Apart w₀ l₀)
    (hx : fat32LookupPath path w₀ = some (some x, w₀)) (hp : path ≠ [] ∧ path ≠ [slash])
    (hres : Resolved w₀ x) (hdir : x.info.isDirectory = false)
    (h : Shared w₀ l₀ (openedFile x (l₀.getLastD 0)) fds w l b) (hfd : fd ∈ fds) (hg : g ∈ fds)
    (hne : g ≠ fd) :
    ∃ fd' w', (do fat32Close fd; fat32Close g; fat32Open path) w = some (some fd', w') ∧ Calm w' ∧
      Opened w' fd' l ⟨b, 0⟩ := by
  have hlt := h.fd_lt g hg
  have hrun₁ := close_eq (h.isOpen hfd)
  have hopen : Files.fileOf (w.setFile fd closedFile) g = some (w.openFiles g) := by
    have hsame : (w.setFile fd closedFile).openFiles g = w.openFiles g := if_neg hne
    rw [Files.fileOf, hsame]
    exact h.isOpen hg
  have hrun₂ := close_eq hopen
  -- what the descriptor closed last knew of the file does not matter
  let w₁ := (w.setFile fd closedFile).setFile g (reopened (openedFile x (l₀.getLastD 0)) l b)
  have hnew : w₁.openFiles g = reopened (openedFile x (l₀.getLastD 0)) l b := setFile_openFiles_same
  have hframe : FileFrame w₀ l₀ w₁ l (openedFile x (l₀.getLastD 0)) :=
    (h.frame.trans (fileFrame_setFile closedFile l)).trans (fileFrame_setFile _ l)
  have hopened : Opened w₁ g l ⟨b, 0⟩ := by
    refine ⟨hlt, by rw [hnew]; rfl, ?_, by rw [hnew]; rfl, ?_⟩
    · rw [hnew]
      exact content_congr h.content rfl fun _ _ => rfl
    · rw [hnew]
      exact ⟨h.entry.inRange, h.entry.index_lt, h.entry.apart, h.entry.used, h.entry.cluster,
        h.entry.size⟩
  obtain ⟨fd', w', hrun, hw', ho, -⟩ := Reopen.reopen hw ha hres hp hx hdir hopened hframe
    (by rw [hnew]; exact ⟨rfl, rfl, rfl, rfl⟩)
  refine ⟨fd', w', ?_, hw', ho⟩
  rw [bind_run, close_eq (fileOf_eq hopened), Option.bind_some, setFile_setFile] at hrun
  rw [bind_run, hrun₁, Option.bind_some, bind_run, hrun₂, Option.bind_some]
  exact hrun

end

/-- **No update is lost while nothing older is put back.** A file is opened twice
and used through both descriptors in any order; the descriptor that writes may be
stale, but neither a start cluster, a size nor a last cluster that is older than
the file's comes in with the write. After both are closed, the path is opened to
a file whose size and bytes are those that the successful writes left. -/
theorem no_lost_update {w₀ w₁ w₂ w : World} {path : CStr} {x : Lookup} {l : List Nat}
    {fd₁ fd₂ : Nat} {b : List UInt8} (hw : Calm w₀) (ha : Apart w₀ l)
    (hx : fat32LookupPath path w₀ = some (some x, w₀)) (hf : FileOk w₀ x l)
    (h₁ : fat32Open path w₀ = some (some fd₁, w₁)) (h₂ : fat32Open path w₁ = some (some fd₂, w₂))
    (hrun : Interleaved Newest [fd₁, fd₂] w₂ (fileBytes w₀ l x.info.size) w b) :
    ∃ fd w', (do fat32Close fd₁; fat32Close fd₂; fat32Open path) w = some (some fd, w') ∧
      (w'.openFiles fd).fileSize = b.length ∧
      ∀ n, n < 2 ^ 32 → ∃ w'', fat32Read fd n w' = some (some (b.take n), w'') := by
  obtain ⟨hdir, hp, hres⟩ := open_resolved hw ha hx h₁
  obtain ⟨hne, hs⟩ := shared_of_opens hw ha hx hf h₁ h₂
  obtain ⟨l', hs⟩ := hs.run hrun
  obtain ⟨fd', w', hrun', hw', ho⟩ := hs.reopen hw ha hx hp hres hdir
    (show fd₁ ∈ [fd₁, fd₂] by simp) (show fd₂ ∈ [fd₁, fd₂] by simp) hne.symm
  refine ⟨fd', w', hrun', ho.content.fileSize, fun n hn => ?_⟩
  obtain ⟨w'', hread, -⟩ := read_refines hw' ho n (by simpa using hn)
  rw [Op.run] at hread
  obtain ⟨r, w₅, h₃, h₄⟩ := bind_eq_some hread
  obtain ⟨h₅, rfl⟩ := Prod.mk.inj (Option.some.inj h₄)
  have hr : r = some ((List.drop 0 _).take n) := Result.bytes.inj h₅
  rw [List.drop_zero] at hr
  exact ⟨w₅, by rw [h₃, hr]⟩

/-! ## A stale descriptor -/

theorem fits_of_free {w : World} {l : List Nat} {c n : Nat} (hc : InRange w c)
    (hfree : nextOf w c = 0) (hn : n ≤ clusterSize w) : Fits w l n := by
  intro q hq
  have hpos : 0 < (freeClusters w).card := Finset.card_pos.mpr ⟨c, mem_freeClusters.mpr ⟨hc, hfree⟩⟩
  have : q = 0 := by
    by_contra hne
    have := Nat.le_mul_of_pos_left (clusterSize w) (Nat.pos_of_ne_zero hne)
    omega
  omega

/-- The root directory holds the file `A` with the bytes 0, 0 in cluster 3. -/
def volumeB : World :=
  ((rootVolume [dirEntry nameA attrArchive 3 2]).setFat 2 endCluster).setFat 3 endCluster

theorem calm_volumeB : Calm volumeB where
  geometry := sameGeometry_setTable.geometry
    (sameGeometry_setTable.geometry (geometry_rootVolume _))
  noFaults _ := rfl
  flushable := by
    change 1 % 256 ≠ 0
    decide
  mallocs _ := rfl

theorem chainFrom_volumeB : ChainFrom volumeB 2 [2] where
  head := rfl
  linked := ⟨endCluster, by decide, by change endCluster % 2 ^ 28 = endCluster; decide, trivial⟩
  inRange c hc := by
    rw [List.mem_singleton.mp hc]
    exact ⟨Nat.le_refl 2, show 2 < 10 by decide⟩
  nodup := by simp

theorem volumeB_values :
    ((reports (dirSlots volumeB [2])).all fun r => !r.info.isDirectory) = true ∧
    (fat32LookupPath pathA volumeB).map (fun r => r.1) =
      some (some ⟨⟨[0x41], [0x41], false, attrArchive, 2, 3⟩, 2, 2, 0⟩) ∧
    ((do
      let a ← fat32Open pathA
      let b ← fat32Open pathA
      let w₂ ← Eff.get
      let n ← (Op.write [1, 2, 3]).run 0
      let m ← (Op.seek 2).run 1
      let w₄ ← Eff.get
      let k ← (Op.write [7, 8]).run 1
      return decide (a = some 0 ∧ b = some 1 ∧ n = .count 3 ∧ m = .moved true ∧ k = .count 2 ∧
        (w₂.openFiles 0).position = 0 ∧ PutsNewest w₂ (w₂.openFiles 0) 3 ∧ nextOf w₂ 5 = 0 ∧
        w₂.fs.totalClusters = 10 ∧ clusterSize w₂ = 512 ∧
        (w₄.openFiles 1).position = 2 ∧ PutsNewest w₄ (w₄.openFiles 1) 2 ∧ nextOf w₄ 5 = 0 ∧
        w₄.fs.totalClusters = 10 ∧ clusterSize w₄ = 512 ∧
        fileBytes volumeB [3] 2 = [0, 0]) : Fat Bool) volumeB).map (fun r => r.1) = some true := by
  decide +kernel

theorem apart_volumeB : Apart volumeB [3] := by
  refine apart_root calm_volumeB rfl chainFrom_volumeB volumeB_values.1 (by simp) ?_
  change endCluster % 2 ^ 28 ≠ 0
  decide

/-- One descriptor makes the file longer, the other one, which shows the old size,
writes on from there. -/
theorem no_lost_update_example : ∃ w₁ w₂ w₅ fd w₆ w₇,
    fat32Open pathA volumeB = some (some 0, w₁) ∧ fat32Open pathA w₁ = some (some 1, w₂) ∧
    (do
      let n ← (Op.write [1, 2, 3]).run 0
      let m ← (Op.seek 2).run 1
      let k ← (Op.write [7, 8]).run 1
      return (n, m, k)) w₂ = some ((.count 3, .moved true, .count 2), w₅) ∧
    (do fat32Close 0; fat32Close 1; fat32Open pathA) w₅ = some (some fd, w₆) ∧
    fat32Read fd 9 w₆ = some (some [1, 2, 7, 8], w₇) := by
  obtain ⟨-, hlook, hrun⟩ := volumeB_values
  obtain ⟨r, hr, -⟩ := lookupPath_resolved (w := volumeB) ⟨calm_volumeB, apart_volumeB.directories⟩
    pathA
  rw [hr] at hlook
  obtain rfl := Option.some.inj hlook
  have hok : FileOk volumeB ⟨⟨[0x41], [0x41], false, attrArchive, 2, 3⟩, 2, 2, 0⟩ [3] := by
    refine ⟨⟨⟨by change endCluster % 2 ^ 28 = endCluster; decide, trivial⟩, by simp,
      fun c hc => ?_⟩, rfl, fun q hq => ?_, ?_⟩
    · rw [List.mem_singleton.mp hc]
      exact ⟨by decide, show 3 < 10 by decide⟩
    · obtain rfl : q = 0 := Nat.lt_one_iff.mp hq
      rw [Nat.zero_mul]
      decide
    · show 2 ≤ 1 * (1 * 512)
      decide
  obtain ⟨_, hrest, hall⟩ := Option.map_eq_some_iff.mp hrun
  obtain ⟨a, w₁, h₁, hrest⟩ := bind_eq_some hrest
  obtain ⟨b, w₂, h₂, hrest⟩ := bind_eq_some hrest
  obtain ⟨n, w₃, h₃, hrest⟩ := bind_eq_some (get_bind_eq_some hrest)
  obtain ⟨m, w₄, h₄, hrest⟩ := bind_eq_some hrest
  obtain ⟨k, w₅, h₅, hlast⟩ := bind_eq_some (get_bind_eq_some hrest)
  obtain rfl := Option.some.inj hlast
  obtain ⟨rfl, rfl, rfl, rfl, rfl, hp, hnew, hfree, htotal, hsize, hp', hnew', hfree', htotal',
    hsize', hbytes⟩ := of_decide_eq_true hall
  have hturns : Interleaved Newest [0, 1] w₂ [0, 0] w₅ (expected w₄ 1 (expected w₃ 1
      (expected w₂ 0 [0, 0] (.write [1, 2, 3]) (.count 3)) (.seek 2) (.moved true))
      (.write [7, 8]) (.count 2)) := by
    refine .call (.call (.call .start (by simp) ⟨?_, fun l _ _ => ?_⟩ (fun _ => hnew) h₃) (by simp)
      trivial trivial h₄) (by simp) ⟨?_, fun l _ _ => ?_⟩ (fun _ => hnew') h₅
    · rw [hp]
      decide
    · rw [hp]
      exact fits_of_free ⟨by decide, by rw [htotal]; decide⟩ hfree (by rw [hsize]; decide)
    · rw [hp']
      decide
    · rw [hp']
      exact fits_of_free ⟨by decide, by rw [htotal']; decide⟩ hfree' (by rw [hsize']; decide)
  rw [← hbytes] at hturns
  obtain ⟨fd, w₆, h₆, -, hread⟩ := no_lost_update calm_volumeB apart_volumeB hr hok h₁ h₂ hturns
  obtain ⟨w₇, h₇⟩ := hread 9 (by decide)
  refine ⟨w₁, w₂, w₅, fd, w₆, w₇, h₁, h₂, ?_, h₆, ?_⟩
  · simp only [bind_run, h₃, h₄, h₅, Option.bind_some, pure_run]
  · rw [h₇, hbytes]
    simp only [expected, hp, hp']
    rfl

/-- A write through a descriptor of an empty file is lost when the other one,
which has no cluster yet either, writes after it. -/
theorem stale_descriptor_loses_write : ∃ w₁ w₂ w₄ w₅ w₆,
    fat32Open pathA volumeA = some (some 0, w₁) ∧ fat32Open pathA w₁ = some (some 1, w₂) ∧
    Interleaved (fun _ _ _ => True) [0, 1] w₂ [] w₄ [9, 2, 3] ∧
    (do fat32Close 0; fat32Close 1; fat32Open pathA) w₄ = some (some 0, w₅) ∧
    (w₅.openFiles 0).fileSize = 1 ∧ fat32Read 0 9 w₅ = some (some [9], w₆) := by
  have hrun : ((do
      let a ← fat32Open pathA
      let b ← fat32Open pathA
      let w₂ ← Eff.get
      let n ← (Op.write [1, 2, 3]).run 0
      let w₃ ← Eff.get
      let m ← (Op.write [9]).run 1
      fat32Close 0
      fat32Close 1
      let c ← fat32Open pathA
      let w₅ ← Eff.get
      let r ← fat32Read 0 9
      return decide (a = some 0 ∧ b = some 1 ∧ n = .count 3 ∧ m = .count 1 ∧ c = some 0 ∧
        r = some [9] ∧ (w₂.openFiles 0).position = 0 ∧ nextOf w₂ 5 = 0 ∧ w₂.fs.totalClusters = 10 ∧
        clusterSize w₂ = 512 ∧ (w₃.openFiles 1).position = 0 ∧ nextOf w₃ 5 = 0 ∧
        w₃.fs.totalClusters = 10 ∧ clusterSize w₃ = 512 ∧
        (w₅.openFiles 0).fileSize = 1) : Fat Bool) volumeA).map (fun r => r.1) = some true := by
    decide +kernel
  obtain ⟨_, hrest, hall⟩ := Option.map_eq_some_iff.mp hrun
  obtain ⟨a, w₁, h₁, hrest⟩ := bind_eq_some hrest
  obtain ⟨b, w₂, h₂, hrest⟩ := bind_eq_some hrest
  obtain ⟨n, w₃, h₃, hrest⟩ := bind_eq_some (get_bind_eq_some hrest)
  obtain ⟨m, w₄, h₄, hrest⟩ := bind_eq_some (get_bind_eq_some hrest)
  obtain ⟨_, u, hc₁, hrest⟩ := bind_eq_some hrest
  obtain ⟨_, v, hc₂, hrest⟩ := bind_eq_some hrest
  obtain ⟨c, w₅, hc₃, hrest⟩ := bind_eq_some hrest
  obtain ⟨d, w₆, h₆, hlast⟩ := bind_eq_some (get_bind_eq_some hrest)
  obtain rfl := Option.some.inj hlast
  obtain ⟨rfl, rfl, rfl, rfl, rfl, rfl, hp, hfree, htotal, hsize, hp', hfree', htotal', hsize',
    hend⟩ := of_decide_eq_true hall
  have h₅ : (do fat32Close 0; fat32Close 1; fat32Open pathA) w₄ = some (some 0, w₅) := by
    simp only [bind_run, hc₁, hc₂, Option.bind_some]
    exact hc₃
  refine ⟨w₁, w₂, w₄, w₅, w₆, h₁, h₂, ?_, h₅, hend, h₆⟩
  have hturns : Interleaved (fun _ _ _ => True) [0, 1] w₂ [] w₄ (expected w₃ 1
      (expected w₂ 0 [] (.write [1, 2, 3]) (.count 3)) (.write [9]) (.count 1)) := by
    refine .call (.call .start (by simp) ⟨?_, fun l _ _ => ?_⟩ trivial h₃) (by simp)
      ⟨?_, fun l _ _ => ?_⟩ trivial h₄
    · rw [hp]
      decide
    · rw [hp]
      exact fits_of_free ⟨by decide, by rw [htotal]; decide⟩ hfree (by rw [hsize]; decide)
    · rw [hp']
      decide
    · rw [hp']
      exact fits_of_free ⟨by decide, by rw [htotal']; decide⟩ hfree' (by rw [hsize']; decide)
  rw [expected, expected, hp, hp'] at hturns
  exact hturns

end ContinuumOS.Fat32.Sharing
