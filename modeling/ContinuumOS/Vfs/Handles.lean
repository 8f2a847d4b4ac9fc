import ContinuumOS.Vfs.Runs
import ContinuumOS.Lib.Slots

/-! # The table of open files counts the handles

`vfs_close` clears the first entry with the handle of the caller's structure,
which may have been entered by another open of the same file. Entries with one
handle are alike, so what counts is how many there are: over any run the handles
in the table are those that callers hold open, each as often. -/
namespace ContinuumOS.Vfs.Handles
open scoped List
open ContinuumOS.Lib.Runs ContinuumOS.Lib.Slots
open ContinuumOS.Ramfs.Runs
open ContinuumOS.Vfs.Adapters ContinuumOS.Vfs.Files ContinuumOS.Vfs.Calls ContinuumOS.Vfs.Runs

/-- The handles in the table of open files. -/
def entered (v : VfsTables) : List (Nat × Option Nat) := taken VfsFile.inUse handleOf v.openFiles

/-- The handles that callers hold open. -/
def outstanding (s : Sys) : List (Nat × Option Nat) := taken VfsFile.inUse handleOf s.handles

/-- The table has its length, free entries are zero, and what is entered is what
is outstanding. -/
structure Balanced (s : Sys) : Prop where
  length : s.kernel.vfs.openFiles.length = vfsMaxOpenFiles
  clean : Clean s.kernel.vfs
  perm : entered s.kernel.vfs ~ outstanding s

variable {fuel : Nat} {s t : Sys} {act : Act} {f : VfsFile}

theorem balanced_booted (h : Booted s) : Balanced s := by
  refine ⟨by rw [h.vfs]; rfl, fun f hf _ => ?_, ?_⟩
  · rw [h.vfs] at hf
    exact (List.mem_replicate.mp hf).2
  · rw [outstanding, h.handles, h.vfs]
    exact .refl _

/-! ## What a step does to the table -/

/-- A handle that is outstanding has an entry, and clearing it takes the handle
out once. -/
theorem entered_withoutEntry {v : VfsTables} (h : handleOf f ∈ entered v) :
    handleOf f :: entered (withoutEntry v f) ~ entered v := by
  obtain ⟨j, g, hfind, hg, hused, hkey⟩ := exists_findIdx h
  have hentry : v.entryOf f = some j := hfind
  rw [withoutEntry, hentry, ← hkey]
  exact taken_clear hg hused rfl

theorem clean_set {v : VfsTables} (h : Clean v) {j : Nat} (hf : f.inUse = false → f = .zero) :
    Clean { v with openFiles := v.openFiles.set j f } := by
  intro g hg hfree
  obtain hg | rfl := List.mem_or_eq_of_mem_set hg
  · exact h g hg hfree
  · exact hf hfree

theorem withoutEntry_openFiles (v : VfsTables) (f : VfsFile) :
    withoutEntry v f = v ∨
      ∃ j, withoutEntry v f = { v with openFiles := v.openFiles.set j .zero } := by
  unfold withoutEntry
  cases v.entryOf f with
  | none => exact .inl rfl
  | some j => exact .inr ⟨j, rfl⟩

theorem Balanced.step (h : Balanced s) (hact : act.isUnmount = false)
    (hs : step fuel s act = some t) : Balanced t := by
  cases step_change hs with
  | quiet _ handles _ same =>
    have hvfs := same h.clean
    refine ⟨hvfs ▸ h.length, hvfs ▸ h.clean, ?_⟩
    rw [outstanding, handles, hvfs]
    exact h.perm
  | mounted _ _ _ vfs _ handles =>
    refine ⟨by rw [vfs]; exact h.length, by rw [vfs]; exact h.clean, ?_⟩
    rw [outstanding, handles, vfs]
    exact h.perm
  | unmounted => cases hact
  | opened opened _ handles =>
    obtain ⟨j, hfree, hvfs⟩ := opened.entry
    obtain ⟨hj, hunused, -⟩ := List.findIdx?_eq_some_iff_getElem.mp hfree
    rw [Bool.not_eq_true'] at hunused
    refine ⟨by rw [hvfs, List.length_set]; exact h.length, ?_, ?_⟩
    · rw [hvfs]
      exact clean_set h.clean fun hf => by rw [opened.inUse] at hf; cases hf
    · rw [outstanding, handles, hvfs, taken_append]
      refine (taken_fill (List.getElem?_eq_getElem hj) hunused opened.inUse).trans ?_
      refine (h.perm.cons _).trans ?_
      rw [taken_cons, keyOf_used opened.inUse, taken_nil, List.append_nil]
      exact (List.perm_append_singleton _ _).symm
  | closed handle inUse vfs _ handles =>
    have hmem : handleOf _ ∈ entered s.kernel.vfs :=
      h.perm.mem_iff.mpr (mem_taken.mpr ⟨_, List.mem_of_getElem? handle, inUse, rfl⟩)
    refine ⟨?_, ?_, ?_⟩
    · obtain hsame | ⟨j, hset⟩ := withoutEntry_openFiles s.kernel.vfs _
      · rw [vfs, hsame]
        exact h.length
      · rw [vfs, hset, List.length_set]
        exact h.length
    · obtain hsame | ⟨j, hset⟩ := withoutEntry_openFiles s.kernel.vfs _
      · rw [vfs, hsame]
        exact h.clean
      · rw [vfs, hset]
        exact clean_set h.clean fun _ => rfl
    · -- both sides lose the same handle
      rw [outstanding, handles, vfs]
      have htable := (entered_withoutEntry hmem).trans h.perm
      have hheld : handleOf _ :: taken VfsFile.inUse handleOf (s.handles.set _ .zero) ~
          outstanding s := taken_clear handle inUse rfl
      exact (htable.trans hheld.symm).cons_inv
  | moved handle moved vfs _ handles =>
    refine ⟨vfs ▸ h.length, vfs ▸ h.clean, ?_⟩
    rw [outstanding, handles, vfs]
    refine h.perm.trans (taken_keep handle ?_).symm
    rw [keyOf, keyOf, moved.inUse, moved.handleOf]
  | named _ _ _ vfs handles =>
    refine ⟨vfs ▸ h.length, vfs ▸ h.clean, ?_⟩
    rw [outstanding, handles, vfs]
    exact h.perm

/-! ## The accounts -/

/-- What the table of open files guarantees in a state. -/
structure Accounts (s : Sys) : Prop where
  /-- The same handles are in the table and in the callers' hands, each as often. -/
  perm : entered s.kernel.vfs ~ outstanding s
  /-- An open that fails changes nothing. -/
  failed : ∀ fuel path code handle k, vfsOpen fuel path s.kernel = some ((code, handle), k) →
    code ≠ .success →
      handle = none ∧ k.vfs = s.kernel.vfs ∧ calm k.stores = calm s.kernel.stores
  /-- A close of a handle frees one entry, with that handle. -/
  closed : ∀ f ∈ s.handles, f.inUse = true → ∃ k, vfsClose f s.kernel = some (.zero, k) ∧
    handleOf f :: entered k.vfs ~ entered s.kernel.vfs
  /-- A close of a structure that was closed before frees none. -/
  closedAgain : ∀ f ∈ s.handles, f.inUse = false → vfsClose f s.kernel = some (f, s.kernel)
  /-- An open of a path that leads to a file system, so of any file that exists,
  finds the table full exactly when all the handles are out. -/
  full : ∀ fuel path i ops relative, Resolves fuel s.kernel.vfs path i ops relative →
    ((∃ handle k, vfsOpen fuel path s.kernel = some ((.noSpace, handle), k)) ↔
      (outstanding s).length = vfsMaxOpenFiles)

theorem Balanced.accounts (h : Balanced s) : Accounts s := by
  have hcount : s.kernel.vfs.freeFile = none ↔ (outstanding s).length = vfsMaxOpenFiles := by
    rw [← h.perm.length_eq, ← h.length]
    exact findIdx_free_eq_none
  refine ⟨h.perm, fun fuel path code handle k hopen hcode => ?_, fun f hf hused => ?_,
    fun f _ hfree => ?_, fun fuel path i ops relative hres => ⟨?_, fun hfull => ?_⟩⟩
  · obtain ⟨-, ⟨f, rfl, -⟩ | ⟨rfl, hrefused⟩⟩ := vfsOpen_cases hopen
    · exact absurd rfl hcode
    · exact ⟨rfl, hrefused.same h.clean, hrefused.stores⟩
  · obtain ⟨k, hclose, -, hvfs⟩ := vfsClose_spec f s.kernel
    rw [if_pos hused] at hclose hvfs
    refine ⟨k, hclose, ?_⟩
    rw [hvfs]
    exact entered_withoutEntry (h.perm.mem_iff.mpr (mem_taken.mpr ⟨f, hf, hused, rfl⟩))
  · rw [vfsClose, hfree]
    rfl
  · rintro ⟨handle, k, hopen⟩
    obtain ⟨-, ⟨f, hcode, -⟩ | ⟨-, hrefused⟩⟩ := vfsOpen_cases hopen
    · cases hcode
    · exact hcount.mp (hrefused.full rfl)
  · exact ⟨none, s.kernel, vfsOpen_full hres (hcount.mpr hfull)⟩

/-- **Handles are accounted for.** In every state of a run without unmounts,
whatever is mounted and however often a file is open: the table of open files
holds the handles that callers hold, each as often; an open that fails changes
nothing; a close frees one entry and a second one none; and an open is refused
for want of an entry exactly when 64 handles are out. -/
theorem handle_accounting (h : Booted s) (fuel : Nat) (acts : List Act)
    (hacts : ∀ act ∈ acts, act.isUnmount = false) :
    ∀ t ∈ visited (step fuel) acts s, Accounts t := by
  intro t ht
  have hnext : ∀ u act w, Balanced u → act.isUnmount = false → step fuel u act = some w →
      Balanced w := fun u act w hu hact hw => hu.step hact hw
  exact (inv_visited hnext acts (balanced_booted h)
    (heeded_of_forall (fun act hact _ => hacts act hact) s) t ht).accounts

/-- The file is opened twice and closed once. -/
def openTwice : List Act :=
  makeFile ++ ([.openFile examplePath, .openFile examplePath, .close 0] : List Act)

/-- One entry is left. -/
theorem handle_accounting_example : ∃ t ∈ visited (step 8) openTwice bootedSys,
    outstanding t = [(4, some 0)] ∧ entered t.kernel.vfs ~ outstanding t := by
  have hrun : (openTwice.foldlM (step 8) bootedSys).map outstanding = some [(4, some 0)] := by
    decide +kernel
  obtain ⟨t, ht, hheld⟩ := Option.map_eq_some_iff.mp hrun
  have hmem := mem_visited_of_foldlM ht
  exact ⟨t, hmem, hheld, (handle_accounting booted_bootedSys 8 _ (by decide) t hmem).perm⟩

end ContinuumOS.Vfs.Handles
