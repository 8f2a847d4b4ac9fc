import ContinuumOS.Fat32.Paths
import ContinuumOS.Fat32.Scan

/-! # Looking up paths

The directories a lookup can reach, what a lookup finds there, and when the
same path is found on another volume: when every search in a directory that is
reached finds there what it found here. -/
namespace ContinuumOS.Fat32.Lookup
open ContinuumOS.Lib.Effect ContinuumOS.Libc.String
open ContinuumOS.Fat32.Volume ContinuumOS.Fat32.Allocation
open ContinuumOS.Fat32.Directory ContinuumOS.Fat32.Scan
open ContinuumOS.Fat32.Paths

/-- A component that is searched for. -/
structure Plain (name : CStr) : Prop where
  ne_nil : name ≠ []
  no_slash : slash ∉ name
  ne_dot : name ≠ [dot]
  ne_dotDot : name ≠ [dot, dot]

/-- A search in a directory of the volume finds `f`. -/
def Finds (w : World) (s : Nat) (name : CStr) (f : Found) : Prop :=
  fat32FindEntryInDirectory s name w = some (some f, w)

/-- The directories that a lookup can reach. -/
inductive IsDir (w : World) : Nat → Prop
  | root : IsDir w w.fs.rootCluster
  | sub {s : Nat} {name : CStr} {f : Found} (dir : IsDir w s) (plain : Plain name)
      (finds : Finds w s name f) (isDir : f.info.isDirectory = true) : IsDir w f.info.cluster

/-- Every directory has a well-formed chain. -/
def Directories (w : World) : Prop := ∀ s, IsDir w s → ∃ l, ChainFrom w s l

/-- A volume whose device and heap answer every request and whose directories
are well formed. -/
structure Sound (w : World) : Prop extends Calm w where
  directories : Directories w

section

variable {w w' : World} {s : Nat} {name : CStr}

theorem Sound.find (h : Sound w) (hs : IsDir w s) (hn : name ≠ []) :
    ∃ l, ChainFrom w s l ∧
      fat32FindEntryInDirectory s name w = some (findIn (reports (dirSlots w l)) name, w) := by
  obtain ⟨l, hl⟩ := h.directories s hs
  exact ⟨l, hl, findEntry_eq h.geometry h.noFaults h.mallocs hl hn⟩

theorem plain_component {cursor : CStr} (hc : cursor.dropWhile (· == slash) ≠ [])
    (h₁ : (cursor.dropWhile (· == slash)).takeWhile (· ≠ slash) ≠ [dot])
    (h₂ : (cursor.dropWhile (· == slash)).takeWhile (· ≠ slash) ≠ [dot, dot]) :
    Plain ((cursor.dropWhile (· == slash)).takeWhile (· ≠ slash)) := by
  refine ⟨?_, ?_, h₁, h₂⟩
  · cases hd : cursor.dropWhile (· == slash) with
    | nil => exact absurd hd hc
    | cons a rest =>
      have ha : (a == slash) = false := by
        have := List.head?_dropWhile_not (· == slash) cursor
        rw [hd] at this
        simpa using this
      have hne : a ≠ slash := by simpa using ha
      simp [hne]
  · intro hm
    simpa using List.mem_takeWhile_imp hm

/-! ## What a lookup finds -/

/-- The entry of a lookup. -/
def foundOf (r : Lookup) : Found := ⟨r.info, r.entryCluster, r.entryIndex⟩

/-- A lookup's result is an entry of the directory it names. -/
def Resolved (w : World) (r : Lookup) : Prop :=
  IsDir w r.parentDir ∧ ∃ name, Plain name ∧ Finds w r.parentDir name (foundOf r)

theorem lookupLoop_resolved (h : Sound w) : ∀ (rounds : Nat) (cursor : CStr) (s : Nat)
    (last : Option Lookup), IsDir w s → (∀ r, last = some r → Resolved w r) →
    ∃ r, lookupLoop rounds cursor s last w = some (r, w) ∧ ∀ x, r = some x → Resolved w x
  | 0, _, _, last, _, hl => ⟨last, rfl, hl⟩
  | rounds + 1, cursor, s, last, hs, hl => by
    rw [lookupLoop]
    simp only [ite_run]
    split
    · exact ⟨last, rfl, hl⟩
    · rename_i hc
      split
      · exact ⟨none, rfl, fun x hx => by cases hx⟩
      · split
        · exact lookupLoop_resolved h rounds _ s last hs hl
        · rename_i h₁
          split
          · exact ⟨none, rfl, fun x hx => by cases hx⟩
          · rename_i h₂
            have hplain := plain_component hc h₁ h₂
            obtain ⟨l, -, hfind⟩ := h.find hs hplain.ne_nil
            simp only [bind_run, hfind, Option.bind_some]
            cases hf : findIn (reports (dirSlots w l)) _ with
            | none => exact ⟨none, rfl, fun x hx => by cases hx⟩
            | some f =>
              rw [hf] at hfind
              have hres : Resolved w ⟨f.info, s, f.cluster, f.index⟩ :=
                ⟨hs, _, hplain, hfind⟩
              simp only [ite_run]
              split
              · exact ⟨_, rfl, fun x hx => by rw [← Option.some.inj hx]; exact hres⟩
              · split
                · exact ⟨none, rfl, fun x hx => by cases hx⟩
                · rename_i hdir
                  refine lookupLoop_resolved h rounds _ _ _ ?_ fun x hx => ?_
                  · exact .sub hs hplain hfind (by simpa using hdir)
                  · rw [← Option.some.inj hx]
                    exact hres

/-- A lookup leaves the volume as it is, and finds the root or an entry of a
directory. -/
theorem lookupPath_resolved (h : Sound w) (path : CStr) :
    ∃ r, fat32LookupPath path w = some (r, w) ∧
      ∀ x, r = some x → (path = [] ∨ path = [slash]) ∧ x = rootLookup w ∨ Resolved w x := by
  rw [fat32LookupPath]
  simp only [bind_run, get_run, Option.bind_some, h.geometry.mounted, not_true_eq_false, if_false,
    ite_run]
  split
  · rename_i hp
    exact ⟨_, rfl, fun x hx => .inl ⟨hp, (Option.some.inj hx).symm⟩⟩
  · obtain ⟨r, hrun, hr⟩ := lookupLoop_resolved h ((path.take maxPath).length + 1) (path.take maxPath)
      w.fs.rootCluster none .root fun x hx => by cases hx
    exact ⟨r, hrun, fun x hx => .inr (hr x hx)⟩

/-! ## Lookups on two volumes -/

/-- Every search that finds an entry on `w` finds it, changed by `u`, on `w'`. -/
structure Follows (w w' : World) (u : Found → Found) : Prop where
  mounted : w'.mounted = w.mounted
  root : w'.fs.rootCluster = w.fs.rootCluster
  finds : ∀ s name f, IsDir w s → Plain name → Finds w s name f → Finds w' s name (u f)
  isDirectory : ∀ s name f, IsDir w s → Plain name → Finds w s name f →
    (u f).info.isDirectory = f.info.isDirectory
  cluster : ∀ s name f, IsDir w s → Plain name → Finds w s name f →
    f.info.isDirectory = true → (u f).info.cluster = f.info.cluster

/-- The lookup with its entry changed by `u`. -/
def updateWith (u : Found → Found) (r : Lookup) : Lookup :=
  ⟨(u (foundOf r)).info, r.parentDir, (u (foundOf r)).cluster, (u (foundOf r)).index⟩

theorem lookupLoop_follows {u : Found → Found} (h : Sound w) (hu : Follows w w' u) :
    ∀ (rounds : Nat) (cursor : CStr) (s : Nat) (last : Option Lookup) (x : Lookup), IsDir w s →
    lookupLoop rounds cursor s last w = some (some x, w) →
    lookupLoop rounds cursor s (last.map (updateWith u)) w' = some (some (updateWith u x), w')
  | 0, cursor, s, last, x, _, hrun => by
    obtain ⟨rfl, -⟩ := Prod.mk.inj (Option.some.inj hrun)
    rfl
  | rounds + 1, cursor, s, last, x, hs, hrun => by
    rw [lookupLoop] at hrun ⊢
    simp only [ite_run] at hrun ⊢
    split at hrun
    · rename_i hc
      obtain ⟨rfl, -⟩ := Prod.mk.inj (Option.some.inj hrun)
      rw [if_pos hc]
      rfl
    · rename_i hc
      rw [if_neg hc]
      split at hrun
      · cases hrun
      · rename_i hlen
        rw [if_neg hlen]
        split at hrun
        · rename_i h₁
          rw [if_pos h₁]
          exact lookupLoop_follows h hu rounds _ s last x hs hrun
        · rename_i h₁
          rw [if_neg h₁]
          split at hrun
          · cases hrun
          · rename_i h₂
            rw [if_neg h₂]
            have hplain := plain_component hc h₁ h₂
            obtain ⟨l, -, hfind⟩ := h.find hs hplain.ne_nil
            cases hf : findIn (reports (dirSlots w l)) _ with
            | none =>
              rw [hf] at hfind
              simp only [bind_run, hfind, Option.bind_some] at hrun
              cases hrun
            | some f =>
              rw [hf] at hfind
              have hfind' := hu.finds s _ f hs hplain hfind
              have hdir := hu.isDirectory s _ f hs hplain hfind
              simp only [bind_run, hfind, Option.bind_some, ite_run] at hrun
              rw [Finds] at hfind'
              simp only [bind_run, hfind', Option.bind_some, ite_run, hdir]
              split at hrun
              · rename_i hrest
                rw [if_pos hrest]
                obtain ⟨hx, -⟩ := Prod.mk.inj (Option.some.inj hrun)
                rw [← Option.some.inj hx]
                rfl
              · rename_i hrest
                rw [if_neg hrest]
                split at hrun
                · cases hrun
                · rename_i hd
                  have hd' : f.info.isDirectory = true := by simpa using hd
                  rw [if_neg hd, hu.cluster s _ f hs hplain hfind hd']
                  exact lookupLoop_follows h hu rounds _ _ (some ⟨f.info, s, f.cluster, f.index⟩) x
                    (.sub hs hplain hfind hd') hrun

/-- **A path that was found is found again.** -/
theorem lookupPath_follows {u : Found → Found} (h : Sound w) (hu : Follows w w' u) {path : CStr}
    {x : Lookup} (hp : path ≠ [] ∧ path ≠ [slash])
    (hrun : fat32LookupPath path w = some (some x, w)) :
    fat32LookupPath path w' = some (some (updateWith u x), w') := by
  have hm : w'.mounted = true := hu.mounted.trans h.geometry.mounted
  rw [fat32LookupPath] at hrun ⊢
  simp only [bind_run, get_run, Option.bind_some, h.geometry.mounted, hm, not_true_eq_false,
    if_false, ite_run, hp.1, hp.2, or_self, hu.root] at hrun ⊢
  exact lookupLoop_follows h hu _ _ _ none x .root hrun

end

end ContinuumOS.Fat32.Lookup
