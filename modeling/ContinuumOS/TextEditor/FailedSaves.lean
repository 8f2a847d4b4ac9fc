import ContinuumOS.TextEditor.RoundTrip
import ContinuumOS.Vfs.Calls

/-! # Saves that fail

`exit` removes the file, creates it anew and writes it. What the path names in
between is followed through the calls: a call that fails after the file was
removed leaves an empty file, or none. -/
namespace ContinuumOS.TextEditor.FailedSaves
open ContinuumOS.Libc.String
open ContinuumOS.TextEditor.Model ContinuumOS.TextEditor.View ContinuumOS.TextEditor.Saving
open ContinuumOS.TextEditor.RoundTrip

/-- What a path names: the content of a file, or nothing. -/
abbrev Named := Option CStr

/-- The results of the calls of a save, with that of `vfs_create`. -/
structure FileCalls extends SaveCalls where
  create : Int
  /-- What the path names once the file system has worked on `vfs_remove`. That is nothing
  after a success, but for RAM files with another child of that name behind the first. After
  an error it is the old file, but on FAT32 without the clusters that were freed before the
  slot could not be marked. -/
  left : Named
  /-- `VFS_NOT_FOUND` is what a path without a mount gets, from every call. -/
  unresolved : remove = vfsNotFound → create = vfsNotFound ∧ openFile = vfsNotFound

/-- `vfs_remove` -/
def vfsRemove (calls : FileCalls) (f : Named) : Named :=
  if calls.remove = vfsNotFound then f else calls.left

/-- `vfs_create` leaves a file that is there. -/
def vfsCreate (result : Int) (f : Named) : Named :=
  if result = vfsSuccess then f.or (some []) else f

/-- `vfs_write` at the start of the file. With another result than the length of the data
the file is as before: RAM files store all or nothing, and on FAT32 the directory slot,
which has the size, is written behind the last byte only. -/
def vfsWrite (result : Int) (data : CStr) (f : Named) : Named :=
  if result = data.length then f.map fun old => data ++ old.drop data.length else f

/-- What `exit` prints. -/
inductive Report
  | noPath
  | noMemory
  | couldNotPrepare
  | couldNotOpen
  | couldNotSeek
  | failedToWrite
  | saved
  deriving DecidableEq, Repr

/-- The calls of `exit(true)` from `vfs_remove` on. -/
def replaceFile (data : CStr) (calls : FileCalls) (f : Named) : Report × Named :=
  let removed := vfsRemove calls f
  if calls.remove ≠ vfsSuccess ∧ calls.remove ≠ vfsNotFound then (.couldNotPrepare, removed)
  else
    let created := vfsCreate calls.create removed
    if calls.openFile ≠ vfsSuccess then (.couldNotOpen, created)
    else if calls.seek ≠ vfsSuccess then (.couldNotSeek, created)
    else if 0 < data.length then
      if calls.write ≠ data.length then (.failedToWrite, vfsWrite calls.write data created)
      else (.saved, vfsWrite calls.write data created)
    else (.saved, created)

/-- `exit(true)`: what it prints, and what the path names then. -/
def saveFile (e : Editor) (calls : FileCalls) (f : Named) : Option (Report × Named) :=
  if e.path = [] then some (.noPath, f)
  else do
    let e ← Editor.trimLines e.lineCount.toNat e
    let total ← Editor.totalLength e e.lineCount.toNat 0
    if 0 < total ∧ calls.kmalloc = false then return (.noMemory, f)
    let data ← Editor.fillData e e.lineCount.toNat 0 []
    return replaceFile data calls f

/-- What the path names when the new content is written. -/
def FileCalls.prepared (calls : FileCalls) (f : Named) : Named :=
  if calls.remove ≠ vfsSuccess ∧ calls.remove ≠ vfsNotFound then vfsRemove calls f
  else vfsCreate calls.create (vfsRemove calls f)

/-- The save succeeds, or fails before it touches the file, or what it leaves by then
is no change. -/
inductive Spares (data : CStr) (calls : FileCalls) (old : CStr) : Prop
  | succeeds : Succeeds calls.toSaveCalls data.length → Spares data calls old
  | noMemory : calls.kmalloc = false → Spares data calls old
  | noMount : calls.remove = vfsNotFound → Spares data calls old
  | notRemoved : calls.left = some old → Spares data calls old
  | wasEmpty : calls.remove = vfsSuccess → calls.left = none → calls.create = vfsSuccess →
      old = [] → Spares data calls old

/-- If the save reports an error, the path names the file it named before. -/
def KeepsOld (e : Editor) (calls : FileCalls) (old : CStr) : Prop :=
  ∃ r f, saveFile e calls (some old) = some (r, f) ∧ (r ≠ .saved → f = some old)

section

variable {e : Editor} {ls : List CStr} {data old : CStr} {calls : FileCalls}

/-! ## What the calls leave -/

/-- What gets `VFS_NOT_FOUND` from the removal gets it from the calls behind it. -/
theorem notFound_again {fuel : Nat} {path : CStr} {k k' : Vfs.Files.Kernel}
    (h : Vfs.Files.vfsRemove fuel path k = some (.notFound, k')) : k' = k ∧
      (∀ a, Vfs.Files.vfsCreate fuel a path k = some (.notFound, k)) ∧
      Vfs.Files.vfsOpen fuel path k = some ((.notFound, none), k) := by
  obtain ⟨⟨r, t⟩, ht, h⟩ := Option.bind_eq_some_iff.mp h
  obtain ⟨rfl, ⟨i, ops, relative, rfl, -⟩ | ⟨code, rfl, -⟩⟩ := Vfs.Calls.vfsLookup_cases ht
  · -- the file systems' own removals do not say so
    obtain ⟨-, hs⟩ := Vfs.Calls.onStores_spec h
    cases ops
    all_goals
      obtain ⟨b, u, -, hb⟩ := Lib.Effect.bind_eq_some hs
      have hcode := congrArg Prod.fst (Option.some.inj hb)
      rw [Vfs.Adapters.Code.ofBool] at hcode
      split at hcode <;> cases hcode
  · cases h
    refine ⟨rfl, fun a => ?_, ?_⟩
    · rw [Vfs.Files.vfsCreate, Vfs.Files.onPath, Lib.Effect.bind_run, ht]
      rfl
    · rw [Vfs.Files.vfsOpen, Lib.Effect.bind_run, ht]
      rfl

theorem replaceFile_saved_iff (hpos : 0 < data.length) (hm : calls.kmalloc = true) (f : Named) :
    (replaceFile data calls f).1 = .saved ↔ Succeeds calls.toSaveCalls data.length := by
  rw [replaceFile]
  by_cases hr : calls.remove ≠ vfsSuccess ∧ calls.remove ≠ vfsNotFound
  · rw [if_pos hr]
    exact ⟨Report.noConfusion, fun h => absurd hr (or_iff_not_and_not.mp h.remove)⟩
  rw [if_neg hr]
  by_cases ho : calls.openFile = vfsSuccess
  swap
  · rw [if_pos ho]
    exact ⟨Report.noConfusion, fun h => absurd h.openFile ho⟩
  rw [if_neg (not_not.mpr ho)]
  by_cases hs : calls.seek = vfsSuccess
  swap
  · rw [if_pos hs]
    exact ⟨Report.noConfusion, fun h => absurd h.seek hs⟩
  rw [if_neg (not_not.mpr hs), if_pos hpos]
  by_cases hw : calls.write = data.length
  swap
  · rw [if_pos hw]
    exact ⟨Report.noConfusion, fun h => absurd h.write hw⟩
  rw [if_neg (not_not.mpr hw)]
  exact ⟨fun _ => ⟨hm, or_iff_not_and_not.mpr hr, ho, hs, hw⟩, fun _ => rfl⟩

theorem replaceFile_failed (hpos : 0 < data.length) (f : Named)
    (h : (replaceFile data calls f).1 ≠ .saved) :
    (replaceFile data calls f).2 = calls.prepared f := by
  rw [replaceFile] at h ⊢
  rw [FileCalls.prepared]
  by_cases hr : calls.remove ≠ vfsSuccess ∧ calls.remove ≠ vfsNotFound
  · rw [if_pos hr, if_pos hr]
  rw [if_neg hr] at h ⊢
  rw [if_neg hr]
  by_cases ho : calls.openFile = vfsSuccess
  swap
  · rw [if_pos ho]
  rw [if_neg (not_not.mpr ho)] at h ⊢
  by_cases hs : calls.seek = vfsSuccess
  swap
  · rw [if_pos hs]
  rw [if_neg (not_not.mpr hs), if_pos hpos] at h ⊢
  by_cases hw : calls.write = data.length
  · rw [if_neg (not_not.mpr hw)] at h
    exact absurd rfl h
  · rw [if_pos hw, vfsWrite, if_neg hw]

theorem prepared_old_iff : calls.prepared (some old) = some old ↔
    calls.remove = vfsNotFound ∨ calls.left = some old ∨
      calls.remove = vfsSuccess ∧ calls.left = none ∧ calls.create = vfsSuccess ∧ old = [] := by
  have hdiff : vfsNotFound ≠ vfsSuccess := by decide
  rw [FileCalls.prepared]
  by_cases hn : calls.remove = vfsNotFound
  · rw [if_neg (fun h => h.2 hn), vfsRemove, if_pos hn, vfsCreate, Option.some_or, ite_self]
    exact iff_of_true rfl (.inl hn)
  rw [vfsRemove, if_neg hn, or_iff_right hn]
  by_cases hs : calls.remove = vfsSuccess
  swap
  · rw [if_pos ⟨hs, hn⟩]
    exact (or_iff_left fun h => hs h.1).symm
  rw [if_neg (fun h => h.1 hs), vfsCreate, and_iff_right hs]
  cases calls.left with
  | some content =>
    rw [Option.some_or, ite_self, or_iff_left fun h => absurd h.1 (Option.some_ne_none _)]
  | none =>
    by_cases hc : calls.create = vfsSuccess
    · rw [if_pos hc, Option.none_or]
      exact ⟨fun h => .inr ⟨rfl, hc, (Option.some.inj h).symm⟩, fun h => by
        obtain h | ⟨-, -, rfl⟩ := h
        · cases h
        · rfl⟩
    · rw [if_neg hc]
      exact (or_iff_left fun h => hc h.2.1).symm

/-! ## Saves -/

theorem saveFile_eq (h : HasLines e ls) (hne : ls ≠ []) (hp : e.path ≠ []) (calls : FileCalls)
    (f : Named) : saveFile e calls f = some (if calls.kmalloc = false then (.noMemory, f)
      else replaceFile (fileOf (trimmed ls)) calls f) := by
  have hlen : ls.length ≤ e.lineCount.toNat + 1 := by
    rw [h.count]
    exact Nat.le_succ _
  have hk := hasLines_of_init h (trimmed_init ls)
  have hle := hk.count_le
  have htotal := totalLength_eq (trimmed ls) 0 (by omega) hk.rows
  have hfill := fillData_eq (trimmed ls) 0 [] (by omega) hk.rows
  have hpos := length_fileOf_pos (trimmed_ne_nil hne)
  simp only [Nat.cast_zero, List.nil_append] at htotal hfill
  rw [saveFile, if_neg hp]
  simp only [trimLines_eq _ h hne hlen, Option.bind_eq_bind, Option.bind_some, Int.toNat_natCast,
    htotal, hfill, Option.pure_def, hpos, true_and]
  split <;> rfl

theorem saveFile_saved_iff (h : HasLines e ls) (hne : ls ≠ []) (hp : e.path ≠ [])
    (calls : FileCalls) (f : Named) :
    (∃ f', saveFile e calls f = some (.saved, f')) ↔
      ∃ e' data, e.exit true calls.toSaveCalls = some (e', some data) := by
  have hpos := length_fileOf_pos (trimmed_ne_nil hne)
  obtain ⟨hgood, hbad⟩ := exit_save h hne hp calls.toSaveCalls
  rw [saveFile_eq h hne hp]
  by_cases hs : Succeeds calls.toSaveCalls (fileOf (trimmed ls)).length
  · have hm : ¬ calls.kmalloc = false := by
      rw [hs.kmalloc]
      exact Bool.noConfusion
    have hsaved := (replaceFile_saved_iff hpos hs.kmalloc f).mpr hs
    rw [if_neg hm]
    exact ⟨fun _ => ⟨_, _, hgood hs⟩, fun _ => ⟨_, congrArg some (Prod.ext hsaved rfl)⟩⟩
  · refine ⟨fun hsaved => ?_, fun hwritten => ?_⟩
    · obtain ⟨f', hf'⟩ := hsaved
      have hf' := Option.some.inj hf'
      by_cases hm : calls.kmalloc = false
      · rw [if_pos hm] at hf'
        have hr : Report.noMemory = Report.saved := congrArg Prod.fst hf'
        exact Report.noConfusion hr
      · rw [if_neg hm] at hf'
        have hm := Bool.eq_true_of_not_eq_false hm
        exact absurd ((replaceFile_saved_iff hpos hm f).mp (congrArg Prod.fst hf')) hs
    · obtain ⟨e', data, hexit⟩ := hwritten
      rw [hbad hs, Option.some_inj, Prod.mk.injEq] at hexit
      exact absurd hexit.2.symm (Option.some_ne_none data)

end

/-! ## Runs -/

end ContinuumOS.TextEditor.FailedSaves
