import ContinuumOS.Fat32.Files

/-! # A lookup changes nothing

Finding an entry asks the heap for a buffer and the device for clusters. What is
used up is the answers to come (`settled` leaves them out); the volume, the
descriptors and everything else are as before, on any volume. -/
namespace ContinuumOS.Fat32.Lookups
open ContinuumOS.Lib.Effect ContinuumOS.Libc.String
open ContinuumOS.Fat32.Volume ContinuumOS.Fat32.Directory
open ContinuumOS.Fat32.Paths ContinuumOS.Fat32.Files

/-- The state without the answers to come. -/
def settled (w : World) : World :=
  { w with mallocs := fun _ => false, faults := fun _ => none }

abbrev Settled {α : Type} (m : Fat α) : Prop := Keeps settled m

theorem kmalloc_settled (n : Nat) : Settled (kmalloc n) := by
  intro w a w' hr
  rw [kmalloc] at hr
  split at hr <;> cases hr <;> rfl

theorem blockdevRead_settled (dev sector count : Nat) (old : Buf) :
    Settled (blockdevRead dev sector count old) := by
  intro w a w' hr
  rw [blockdevRead] at hr
  split at hr
  · split at hr <;> cases hr <;> rfl
  · cases hr
    rfl

theorem readCluster_settled (c : Nat) : Settled (fat32ReadCluster c) :=
  .get_bind fun _ => .ite (fun _ => .pure _) fun _ => .ite (fun _ => .pure _) fun _ =>
    blockdevRead_settled _ _ _ _

section

variable {κ : Type} (callback : Callback κ)

theorem iterateLoop_settled : ∀ (rounds cluster : Nat) (st : Lfn) (context : κ),
    Settled (iterateLoop callback rounds cluster st context)
  | 0, _, _, _ => .ite (fun _ => .diverge) fun _ => .pure _
  | rounds + 1, _, _, _ => by
    refine .ite (fun _ => .pure _) fun _ => .bind (readCluster_settled _) fun r => ?_
    cases r with
    | none => exact .pure _
    | some buf =>
      refine .get_bind fun w => ?_
      split
      · exact .pure _
      · exact .ite (fun _ => .pure _) fun _ => iterateLoop_settled rounds _ _ _

theorem iterateDirectory_settled (s : Nat) (context : κ) :
    Settled (fat32IterateDirectory s callback context) :=
  .get_bind fun _ => .bind (kmalloc_settled _) fun _ =>
    .ite (fun _ => iterateLoop_settled callback _ _ _ _) fun _ => .pure _

end

theorem findEntry_settled (s : Nat) (name : CStr) : Settled (fat32FindEntryInDirectory s name) :=
  .get_bind fun _ => .ite (fun _ => .pure _) fun _ =>
    .bind (iterateDirectory_settled _ _ _) fun _ => .ite (fun _ => .pure _) fun _ => .pure _

theorem lookupLoop_settled : ∀ (rounds : Nat) (cursor : CStr) (dir : Nat) (last : Option Lookup),
    Settled (lookupLoop rounds cursor dir last)
  | 0, _, _, _ => .pure _
  | rounds + 1, _, _, _ => by
    refine .ite (fun _ => .pure _) fun _ => .ite (fun _ => .pure _) fun _ =>
      .ite (fun _ => lookupLoop_settled rounds _ _ _) fun _ => .ite (fun _ => .pure _) fun _ =>
      .bind (findEntry_settled _ _) fun r => ?_
    cases r with
    | none => exact .pure _
    | some found =>
      exact .ite (fun _ => .pure _) fun _ => .ite (fun _ => .pure _) fun _ =>
        lookupLoop_settled rounds _ _ _

/-- **A lookup changes nothing.** -/
theorem lookupPath_settled (path : CStr) : Settled (fat32LookupPath path) :=
  .get_bind fun _ => .ite (fun _ => .pure _) fun _ => .ite (fun _ => .pure _) fun _ =>
    lookupLoop_settled _ _ _ _

theorem open_refused {path : CStr} {w w' : World} (h : fat32Open path w = some (none, w')) :
    settled w' = settled w := by
  rw [fat32Open] at h
  simp only [bind_run, get_run, Option.bind_some, ite_run] at h
  split at h
  · cases h
    rfl
  obtain ⟨⟨r, t⟩, ht, hrest⟩ := Option.bind_eq_some_iff.mp h
  have hsame := lookupPath_settled path w r t ht
  cases r with
  | none => cases hrest; exact hsame
  | some found =>
    simp only [ite_run, bind_run, get_run, Option.bind_some] at hrest
    split at hrest
    · cases hrest
      exact hsame
    cases hfd : (List.range maxOpenFiles).find? fun fd => !(t.openFiles fd).inUse with
    | none =>
      rw [hfd] at hrest
      cases hrest
      exact hsame
    | some fd =>
      -- with a free descriptor the open succeeds or never comes back
      rw [hfd] at hrest
      cases hlast : fat32GetLastCluster t found.info.cluster with
      | none => simp only [hlast, diverge_run] at hrest; cases hrest
      | some last => simp only [hlast] at hrest; cases hrest

end ContinuumOS.Fat32.Lookups
