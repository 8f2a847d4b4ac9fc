import Mathlib.Algebra.BigOperators.Group.List.Basic
import Mathlib.Algebra.GroupWithZero.Nat
import Mathlib.Data.List.Nodup

/-! # Drawing by weight

Laid side by side, the entries of a list cover the numbers below the sum of
their weights, each one as many numbers as it weighs. `pick` finds the entry
that covers a number by running through the list, so over all numbers every
entry is picked as often as it weighs. -/
namespace ContinuumOS.Lib.Lottery

variable {ι : Type} {weight : ι → Nat} {is : List ι} {i : ι} {w : Nat}

/-- The sum of the weights. -/
def total (weight : ι → Nat) (is : List ι) : Nat := (is.map weight).sum

/-- The entry that covers `w`. -/
def pick (weight : ι → Nat) : List ι → Nat → Option ι
  | [], _ => none
  | i :: is, w => if w < weight i then some i else pick weight is (w - weight i)

theorem total_cons : total weight (i :: is) = weight i + total weight is := List.sum_cons

theorem pick_of_lt (h : w < weight i) : pick weight (i :: is) w = some i := if_pos h

theorem pick_add : pick weight (i :: is) (weight i + w) = pick weight is w := by
  rw [pick, if_neg (by omega), Nat.add_sub_cancel_left]

theorem mem_of_pick : ∀ {is : List ι} {w : Nat}, pick weight is w = some i → i ∈ is
  | j :: is, w, h => by
    rw [pick] at h
    split at h
    · cases h
      exact .head _
    · exact .tail _ (mem_of_pick h)

theorem pick_isSome : ∀ {is : List ι} {w : Nat}, w < total weight is →
    ∃ i, pick weight is w = some i
  | [], _, h => absurd h (Nat.not_lt_zero _)
  | j :: is, w, h => by
    rw [total_cons] at h
    rw [pick]
    split
    · exact ⟨j, rfl⟩
    · exact pick_isSome (by omega)

theorem total_eq_zero_iff (hpos : ∀ i ∈ is, 0 < weight i) : total weight is = 0 ↔ is = [] := by
  cases is with
  | nil => exact iff_of_true rfl rfl
  | cons j is =>
    rw [total_cons]
    have := hpos j (.head _)
    exact iff_of_false (by omega) (List.cons_ne_nil _ _)

theorem countP_range_add (p : Nat → Bool) (m n : Nat) :
    (List.range (m + n)).countP p =
      (List.range m).countP p + (List.range n).countP fun w => p (m + w) := by
  rw [List.range_add, List.countP_append, List.countP_map]
  rfl

variable [DecidableEq ι]

/-- The numbers below the sum for which the entry is picked. -/
def share (weight : ι → Nat) (is : List ι) (i : ι) : Nat :=
  (List.range (total weight is)).countP fun w => pick weight is w == some i

theorem share_cons (j : ι) (is : List ι) :
    share weight (j :: is) i = (if i = j then weight i else 0) + share weight is i := by
  rw [share, total_cons, countP_range_add]
  congr 1
  · -- the first numbers are those of the first entry
    by_cases hij : i = j
    · subst hij
      rw [if_pos rfl, List.countP_eq_length.mpr, List.length_range]
      intro w hw
      rw [pick_of_lt (List.mem_range.mp hw), beq_self_eq_true]
    · rw [if_neg hij, List.countP_eq_zero]
      intro w hw
      rw [pick_of_lt (List.mem_range.mp hw), beq_iff_eq, Option.some.injEq]
      exact Ne.symm hij
  · simp only [pick_add]
    rfl

/-- **Every entry is picked as often as it weighs.** -/
theorem share_eq (hn : is.Nodup) (hi : i ∈ is) : share weight is i = weight i := by
  have hzero : ∀ {js : List ι}, i ∉ js → share weight js i = 0 := by
    intro js hjs
    rw [share, List.countP_eq_zero]
    intro w _ hw
    exact hjs (mem_of_pick (beq_iff_eq.mp hw))
  induction is with
  | nil => cases hi
  | cons j is ih =>
    obtain ⟨hj, hn⟩ := List.nodup_cons.mp hn
    rw [share_cons]
    by_cases hij : i = j
    · rw [if_pos hij, hzero (hij ▸ hj), Nat.add_zero]
    · rw [if_neg hij, ih hn ((List.mem_cons.mp hi).resolve_left hij), Nat.zero_add]

end ContinuumOS.Lib.Lottery
