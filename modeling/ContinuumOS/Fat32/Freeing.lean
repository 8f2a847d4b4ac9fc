import ContinuumOS.Fat32.DataArea
import ContinuumOS.Fat32.Undo
import ContinuumOS.Fat32.Walks

/-! # Freeing whatever the links lead to

`fat32_free_cluster_chain` does not count its steps and does not remember where
it has been. It frees each entry before it goes on to the cluster the entry
named, so a walk that comes back to a cluster finds it free, and stops. The
clusters it frees are those that the links led to when it was called. -/
namespace ContinuumOS.Fat32.Freeing
open Function
open ContinuumOS.Lib.Effect ContinuumOS.Lib.Walks
open ContinuumOS.Fat32.Volume ContinuumOS.Fat32.Device ContinuumOS.Fat32.Allocation
open ContinuumOS.Fat32.Undo ContinuumOS.Fat32.DataArea ContinuumOS.Fat32.Walks

/-- The number of a data cluster, which the end marker is not. -/
def ClusterNumber (w : World) (c : Nat) : Prop := DataCluster w c ∧ c < endCluster

/-- The entries are free, end markers or cluster numbers. -/
def ValidEntries (w : World) : Prop := ∀ c, ClusterNumber w c →
  nextOf w c = 0 ∨ nextOf w c = endCluster ∨ ClusterNumber w (nextOf w c)

/-- The entries lead from `s` to `c`. -/
def Reaches (w : World) (s c : Nat) : Prop := Comes (nextOf w) (ClusterNumber w) s c

/-- The entries that name a cluster. -/
def linking (t : Nat → Nat) : Finset Nat := clusterNumbers.filter fun c => isChained (t c % 2 ^ 28)

section

variable {w : World} {s c : Nat} {t t' : Nat → Nat}

theorem ClusterNumber.isChained (h : ClusterNumber w c) : isChained c = true :=
  isChained_iff.mpr ⟨h.1.1, h.2⟩

/-! ## The loop ends -/

theorem linking_setEntry_subset : linking (setEntry t c 0) ⊆ linking t := by
  intro a ha
  obtain ⟨hmem, hnext⟩ := Finset.mem_filter.mp ha
  refine Finset.mem_filter.mpr ⟨hmem, ?_⟩
  unfold setEntry at hnext
  split at hnext
  · cases hnext
  · exact hnext

theorem linking_setEntry_lt (hc : isChained c = true) (hn : isChained (t c % 2 ^ 28) = true) :
    (linking (setEntry t c 0)).card < (linking t).card := by
  refine Finset.card_lt_card ((Finset.ssubset_iff_of_subset linking_setEntry_subset).mpr ?_)
  refine ⟨c, Finset.mem_filter.mpr ⟨mem_clusterNumbers c hc, hn⟩, fun hm => ?_⟩
  have hfree := (Finset.mem_filter.mp hm).2
  rw [setEntry, if_pos rfl] at hfree
  cases hfree

theorem freeLoop_isSome (rounds : Nat) : ∀ (c : Nat) (t : Nat → Nat),
    (linking t).card + (if isChained c = true then 1 else 0) ≤ rounds →
    (freeLoop rounds c t).isSome := by
  induction rounds with
  | zero =>
    intro c t h
    have hc : ¬ isChained c = true := by
      intro hc
      rw [if_pos hc] at h
      omega
    rw [freeLoop, if_neg hc]
    rfl
  | succ rounds ih =>
    intro c t h
    rw [freeLoop]
    by_cases hc : isChained c = true
    · rw [if_pos hc] at h ⊢
      refine ih _ _ ?_
      by_cases hn : isChained (t c % 2 ^ 28) = true
      · have hlt := linking_setEntry_lt hc hn
        rw [if_pos hn]
        omega
      · have hle := Finset.card_le_card (linking_setEntry_subset (t := t) (c := c))
        rw [if_neg hn]
        omega
    · rw [if_neg hc]
      rfl

theorem freeLoop_ends (s : Nat) (t : Nat → Nat) : (freeLoop walkLimit s t).isSome := by
  refine freeLoop_isSome _ _ _ ?_
  have hle : (linking t).card ≤ clusterNumbers.card := Finset.card_filter_le _ _
  have hlt := card_clusterNumbers
  split <;> omega

/-! ## What the loop frees -/

theorem next_setEntry : (fun a => setEntry t c 0 a % 2 ^ 28) = update (fun a => t a % 2 ^ 28) c 0 := by
  funext a
  unfold setEntry update
  split
  · rename_i h
    subst h
    rfl
  · rfl

theorem freeLoop_frees : ∀ (rounds s : Nat) (t : Nat → Nat), freeLoop rounds s t = some t' →
    ∀ a, (Comes (fun c => t c % 2 ^ 28) (isChained · = true) s a → t' a = 0) ∧
      (¬ Comes (fun c => t c % 2 ^ 28) (isChained · = true) s a → t' a = t a) := by
  have stopped : ∀ (s : Nat) (t : Nat → Nat), ¬ isChained s = true → ∀ a,
      ¬ Comes (fun c => t c % 2 ^ 28) (isChained · = true) s a := by
    rintro s t hs a ⟨n, -, hgo⟩
    exact hs (hgo 0 (Nat.zero_le _))
  intro rounds
  induction rounds with
  | zero =>
    intro s t h a
    rw [freeLoop] at h
    split at h
    · cases h
    · rename_i hs
      obtain rfl := Option.some.inj h
      exact ⟨fun hc => absurd hc (stopped s t hs a), fun _ => rfl⟩
  | succ rounds ih =>
    intro s t h a
    rw [freeLoop] at h
    split at h
    · rename_i hs
      obtain ⟨hfree, hkeep⟩ := ih _ _ h a
      rw [next_setEntry] at hfree hkeep
      have hiff : Comes (fun c => t c % 2 ^ 28) (isChained · = true) s a ↔ a = s ∨
          Comes (update (fun a => t a % 2 ^ 28) s 0) (isChained · = true) (t s % 2 ^ 28) a :=
        comes_update_iff hs (by decide)
      rw [hiff]
      by_cases ha : Comes (update (fun a => t a % 2 ^ 28) s 0) (isChained · = true)
          (t s % 2 ^ 28) a
      · exact ⟨fun _ => hfree ha, fun hno => absurd (.inr ha) hno⟩
      · have hkept : t' a = setEntry t s 0 a := hkeep ha
        refine ⟨fun hc => ?_, fun hno => ?_⟩
        · obtain rfl := hc.resolve_right ha
          rw [hkept, setEntry, if_pos rfl]
        · have hne : a ≠ s := fun he => hno (.inl he)
          rw [hkept, setEntry, if_neg hne]
    · rename_i hs
      obtain rfl := Option.some.inj h
      exact ⟨fun hc => absurd hc (stopped s t hs a), fun _ => rfl⟩

/-! ## Valid tables -/

theorem comes_iff_reaches (hv : ValidEntries w) (hs : ClusterNumber w s) :
    Comes (nextOf w) (isChained · = true) s c ↔ Reaches w s c := by
  refine ⟨fun h => ?_, fun h => h.congr (fun _ _ => rfl) fun _ ha => ha.isChained⟩
  obtain ⟨n, hc, hgo⟩ := h
  refine ⟨n, hc, fun i => ?_⟩
  induction i with
  | zero => exact fun _ => hs
  | succ i ih =>
    intro hi
    have hgo' : isChained ((nextOf w)^[i + 1] s) = true := hgo (i + 1) hi
    rw [iterate_succ_apply'] at hgo' ⊢
    rcases hv _ (ih (by omega)) with h0 | hend | hnum
    · rw [h0] at hgo'
      cases hgo'
    · rw [hend, not_isChained_endCluster] at hgo'
      cases hgo'
    · exact hnum

/-- **Freeing ends and frees what is reachable.** On every table whose entries are
free, end markers or cluster numbers, whether its chains are shared or circular,
`fat32_free_cluster_chain` comes back from every cluster number. The entries of
the clusters that the entries led to are then free, and all others are as they
were. -/
theorem frees_reachable (hv : ValidEntries w) (hs : ClusterNumber w s) :
    ∃ w', fat32FreeClusterChain s w = some ((), w') ∧
      (∀ c, Reaches w s c → w'.fs.fatTable c = 0) ∧
      ∀ c, ¬ Reaches w s c → w'.fs.fatTable c = w.fs.fatTable c := by
  obtain ⟨t, ht⟩ := Option.isSome_iff_exists.mp (freeLoop_ends s w.fs.fatTable)
  obtain ⟨b, w', hflush⟩ := flushFat_runs (w.setTable t)
  have hfs : w'.fs = (w.setTable t).fs := flushFat_keeps _ _ _ hflush
  refine ⟨w', ?_, fun c hc => ?_, fun c hc => ?_⟩
  · simp only [fat32FreeClusterChain, ite_run, hs.isChained, if_true, bind_run, get_run,
      Option.bind_some, ht, modify_run, hflush, pure_run]
  · rw [hfs]
    exact (freeLoop_frees _ _ _ ht c).1 ((comes_iff_reaches hv hs).mpr hc)
  · rw [hfs]
    exact (freeLoop_frees _ _ _ ht c).2 fun h => hc ((comes_iff_reaches hv hs).mp h)

end

/-! ## A chain that leads into a circle -/

/-- Cluster 2 leads to 3 and 4, which lead to each other, and 5 leads to 4. -/
def sharedCircle : World :=
  smallVolume (setEntry (setEntry (setEntry (setEntry (fun _ => 0) 2 3) 3 4) 4 3) 5 4) fun _ => true

theorem validEntries_sharedCircle : ValidEntries sharedCircle := by
  intro c _
  have number : ∀ a, 2 ≤ a → a < 12 → ClusterNumber sharedCircle a := fun a h2 h12 =>
    ⟨⟨h2, h12⟩, by simp only [endCluster]; omega⟩
  by_cases h : c = 2 ∨ c = 3 ∨ c = 4 ∨ c = 5
  · rcases h with rfl | rfl | rfl | rfl
    all_goals exact .inr (.inr (number _ (by decide) (by decide)))
  · refine .inl ?_
    simp only [not_or] at h
    simp [sharedCircle, smallVolume, nextOf, setEntry, h]

theorem not_reaches_sharedCircle : ¬ Reaches sharedCircle 2 5 := by
  rintro ⟨n, hn, -⟩
  have hstays : ∀ n, (nextOf sharedCircle)^[n] 2 ∈ [2, 3, 4] := by
    intro n
    induction n with
    | zero => simp
    | succ n ih =>
      rw [iterate_succ_apply']
      simp only [List.mem_cons, List.not_mem_nil, or_false] at ih
      rcases ih with ih | ih | ih
      all_goals
        rw [ih]
        decide
  have h5 := hstays n
  rw [hn] at h5
  cases h5 with | tail _ h => cases h with | tail _ h => cases h with | tail _ h => cases h

/-- Freeing from cluster 2 frees the circle and leaves cluster 5 linked to it. -/
theorem frees_reachable_sharedCircle : ∃ w', fat32FreeClusterChain 2 sharedCircle = some ((), w') ∧
    w'.fs.fatTable 4 = 0 ∧ w'.fs.fatTable 5 = 4 := by
  have hs : ClusterNumber sharedCircle 2 := ⟨⟨by decide, by decide⟩, by decide⟩
  obtain ⟨w', hrun, hfree, hkeep⟩ := frees_reachable validEntries_sharedCircle hs
  refine ⟨w', hrun, hfree 4 ⟨2, rfl, fun i hi => ?_⟩, (hkeep 5 not_reaches_sharedCircle).trans rfl⟩
  obtain rfl | rfl | rfl : i = 0 ∨ i = 1 ∨ i = 2 := by omega
  all_goals exact ⟨⟨by decide, by decide⟩, by decide⟩

end ContinuumOS.Fat32.Freeing
