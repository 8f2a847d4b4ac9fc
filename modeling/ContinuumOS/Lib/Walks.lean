import Mathlib.Data.Finset.Card
import Mathlib.Dynamics.PeriodicPts.Defs

/-! # Walks along a successor map

`while (go(c)) c = f(c);` goes on for as long as the nodes it comes to satisfy
`go`. Where only finitely many nodes do, it goes on for ever just when it comes
to a node that leads back to itself. -/
namespace ContinuumOS.Lib.Walks
open Function

variable {α : Type} {f : α → α} {go : α → Prop} {s c : α}

/-- The walk from `s` comes to `c`. -/
def Comes (f : α → α) (go : α → Prop) (s c : α) : Prop :=
  ∃ n, f^[n] s = c ∧ ∀ i ≤ n, go (f^[i] s)

/-- The walk from `s` comes to a node that it comes back to. -/
def Circular (f : α → α) (go : α → Prop) (s : α) : Prop :=
  ∃ c, Comes f go s c ∧ ∃ k, 0 < k ∧ f^[k] c = c ∧ ∀ i < k, go (f^[i] c)

theorem Comes.least (h : Comes f go s c) :
    ∃ n, f^[n] s = c ∧ (∀ i ≤ n, go (f^[i] s)) ∧ ∀ m < n, f^[m] s ≠ c := by
  classical
  obtain ⟨hc, hgo⟩ := Nat.find_spec h
  refine ⟨Nat.find h, hc, hgo, fun m hm hback => Nat.find_min h hm ⟨hback, fun i hi => ?_⟩⟩
  exact hgo i (hi.trans hm.le)

theorem comes_of_endless (h : ∀ n, go (f^[n] s)) (n : Nat) : Comes f go s (f^[n] s) :=
  ⟨n, rfl, fun i _ => h i⟩

theorem Circular.endless (h : Circular f go s) (n : Nat) : go (f^[n] s) := by
  obtain ⟨c, ⟨m, rfl, hm⟩, k, hk, hper, hgo⟩ := h
  rcases Nat.le_total n m with hn | hn
  · exact hm n hn
  · obtain ⟨j, rfl⟩ := Nat.exists_eq_add_of_le' hn
    rw [iterate_add_apply, ← IsPeriodicPt.iterate_mod_apply (x := f^[m] s) hper j]
    exact hgo _ (Nat.mod_lt _ hk)

theorem circular_of_repeats {i j : Nat} (hij : i < j) (h : f^[i] s = f^[j] s)
    (hgo : ∀ n < j, go (f^[n] s)) : Circular f go s := by
  refine ⟨f^[i] s, ⟨i, rfl, fun n hn => hgo n (by omega)⟩, j - i, by omega, ?_, fun n hn => ?_⟩
  · rw [← iterate_add_apply, Nat.sub_add_cancel hij.le, h]
  · rw [← iterate_add_apply]
    exact hgo _ (by omega)

/-! ## Walks that clear what they pass -/

theorem comes_refl (h : go s) : Comes f go s s := by
  refine ⟨0, rfl, fun i hi => ?_⟩
  obtain rfl : i = 0 := Nat.le_zero.mp hi
  exact h

theorem Comes.cons (hs : go s) (h : Comes f go (f s) c) : Comes f go s c := by
  obtain ⟨n, hc, hgo⟩ := h
  refine ⟨n + 1, hc, fun i hi => ?_⟩
  cases i with
  | zero => exact hs
  | succ i => exact hgo i (by omega)

theorem Comes.snoc (h : Comes f go s c) (hc : go (f c)) : Comes f go s (f c) := by
  obtain ⟨n, rfl, hgo⟩ := h
  refine ⟨n + 1, iterate_succ_apply' f n s, fun i hi => ?_⟩
  rcases Nat.lt_or_ge n i with hlt | hge
  · obtain rfl : i = n + 1 := by omega
    rw [iterate_succ_apply']
    exact hc
  · exact hgo i hge

theorem Comes.congr {g : α → α} {go' : α → Prop} (h : Comes f go s c)
    (hf : ∀ a, go a → g a = f a) (hgo : ∀ a, go a → go' a) : Comes g go' s c := by
  obtain ⟨n, rfl, hs⟩ := h
  have heq : ∀ i ≤ n, g^[i] s = f^[i] s := by
    intro i
    induction i with
    | zero => intro _; rfl
    | succ i ih =>
      intro hi
      rw [iterate_succ_apply', iterate_succ_apply', ih (by omega), hf _ (hs i (by omega))]
  refine ⟨n, heq n le_rfl, fun i hi => ?_⟩
  rw [heq i hi]
  exact hgo _ (hs i hi)

/-- The way to another node passes the start for the last time, and goes on as if
the start led nowhere. -/
theorem Comes.leave [DecidableEq α] {stop : α} (h : Comes f go s c) (hne : c ≠ s) :
    Comes (update f s stop) go (f s) c := by
  obtain ⟨n, hc, hgo, hleast⟩ := h.least
  obtain ⟨n, rfl⟩ : ∃ k, n = k + 1 := by
    cases n with
    | zero => exact absurd hc (Ne.symm hne)
    | succ n => exact ⟨n, rfl⟩
  -- coming back to the start would be a detour
  have haway : ∀ i < n, f^[i] (f s) ≠ s := by
    intro i hi hback
    refine hleast (n - i) (by omega) ?_
    rw [← hc, show n + 1 = (n - i) + (i + 1) by omega, iterate_add_apply]
    rw [iterate_succ_apply, hback]
  have heq : ∀ i ≤ n, (update f s stop)^[i] (f s) = f^[i] (f s) := by
    intro i
    induction i with
    | zero => intro _; rfl
    | succ i ih =>
      intro hi
      rw [iterate_succ_apply', iterate_succ_apply', ih (by omega),
        update_of_ne (haway i (by omega))]
  refine ⟨n, (heq n le_rfl).trans hc, fun i hi => ?_⟩
  rw [heq i hi]
  exact hgo (i + 1) (by omega)

theorem Comes.of_update [DecidableEq α] {stop : α} (hs : go s) (hstop : ¬ go stop)
    (h : Comes (update f s stop) go (f s) c) : Comes f go s c := by
  obtain ⟨n, rfl, hgo⟩ := h
  have heq : ∀ i ≤ n, (update f s stop)^[i] (f s) = f^[i] (f s) := by
    intro i
    induction i with
    | zero => intro _; rfl
    | succ i ih =>
      intro hi
      have hne : (update f s stop)^[i] (f s) ≠ s := by
        intro hback
        have hnext := hgo (i + 1) hi
        rw [iterate_succ_apply', hback, update_self] at hnext
        exact hstop hnext
      rw [iterate_succ_apply', iterate_succ_apply', update_of_ne hne, ih (by omega)]
  refine Comes.cons hs ⟨n, (heq n le_rfl).symm, fun i hi => ?_⟩
  rw [← heq i hi]
  exact hgo i hi

/-- **Clearing the start behind the walk** loses none of the nodes it comes to. -/
theorem comes_update_iff [DecidableEq α] {stop : α} (hs : go s) (hstop : ¬ go stop) :
    Comes f go s c ↔ c = s ∨ Comes (update f s stop) go (f s) c := by
  constructor
  · intro h
    by_cases hc : c = s
    · exact .inl hc
    · exact .inr (h.leave hc)
  · rintro (rfl | h)
    · exact comes_refl hs
    · exact h.of_update hs hstop

section

variable {nodes : Finset α} (hn : ∀ c, go c → c ∈ nodes)

include hn

theorem circular_of_long (h : ∀ i ≤ nodes.card, go (f^[i] s)) : Circular f go s := by
  have hmap : ∀ i ∈ Finset.range (nodes.card + 1), f^[i] s ∈ nodes := fun i hi =>
    hn _ (h i (Nat.lt_succ_iff.mp (Finset.mem_range.mp hi)))
  obtain ⟨i, hi, j, hj, hne, heq⟩ :=
    Finset.exists_ne_map_eq_of_card_lt_of_maps_to (by simp) hmap
  rw [Finset.mem_range] at hi hj
  rcases Nat.lt_or_gt_of_ne hne with hij | hij
  · exact circular_of_repeats hij heq fun n hlt => h n (by omega)
  · exact circular_of_repeats hij heq.symm fun n hlt => h n (by omega)

/-- **A walk among finitely many nodes that ends** has ended after as many steps as
there are nodes. -/
theorem not_circular_iff : ¬ Circular f go s ↔ ∃ n ≤ nodes.card, ¬ go (f^[n] s) := by
  constructor
  · intro h
    by_contra hgo
    exact h (circular_of_long hn fun i hi => not_not.mp fun hs => hgo ⟨i, hi, hs⟩)
  · rintro ⟨n, -, hstop⟩ h
    exact hstop (h.endless n)

theorem Comes.within (h : Comes f go s c) :
    ∃ n < nodes.card, f^[n] s = c ∧ ∀ i ≤ n, go (f^[i] s) := by
  classical
  obtain ⟨n, hc, hgo, hleast⟩ := h.least
  refine ⟨n, ?_, hc, hgo⟩
  by_contra hge
  have hmap : ∀ i ∈ Finset.range (n + 1), f^[i] s ∈ nodes := fun i hi =>
    hn _ (hgo i (Nat.lt_succ_iff.mp (Finset.mem_range.mp hi)))
  obtain ⟨i, hi, j, hj, hne, heq⟩ := Finset.exists_ne_map_eq_of_card_lt_of_maps_to
    (by rw [Finset.card_range]; omega) hmap
  rw [Finset.mem_range] at hi hj
  wlog hij : i < j generalizing i j
  · exact this j hj i hi (Ne.symm hne) heq.symm (by omega)
  -- the part between the two visits can be left out
  refine hleast (n - (j - i)) (by omega) ?_
  have hshort : f^[n - (j - i)] s = f^[n - j] (f^[j] s) := by
    rw [← heq, ← iterate_add_apply]
    congr 1
    omega
  rw [hshort, ← iterate_add_apply, Nat.sub_add_cancel (by omega)]
  exact hc

end

end ContinuumOS.Lib.Walks
