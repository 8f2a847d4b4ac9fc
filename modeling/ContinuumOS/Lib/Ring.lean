import Mathlib.Data.List.Basic
import Mathlib.Logic.Function.Basic

/-! # Rings of cells

`count` items lie in consecutive cells of a ring of `size`, from `tail` on. Items
go in behind the last one and come out at `tail`; a full queue that takes one
more loses its oldest item. -/
namespace ContinuumOS.Lib.Ring

variable {α : Type} {size : Nat} {cells : Nat → α} {tail count : Nat}

/-- The items, oldest first. -/
def contents (size : Nat) (cells : Nat → α) (tail count : Nat) : List α :=
  (List.range count).map fun i => cells ((tail + i) % size)

/-- A queue of at most `capacity` items takes one more. -/
def pushBounded (capacity : Nat) (q : List α) (a : α) : List α :=
  (if q.length = capacity then q.tail else q) ++ [a]

@[simp] theorem length_contents : (contents size cells tail count).length = count := by
  simp [contents]

@[simp] theorem contents_zero : contents size cells tail 0 = [] := rfl

theorem contents_succ (ht : tail < size) : contents size cells tail (count + 1) =
    cells tail :: contents size cells ((tail + 1) % size) count := by
  have hrest : ∀ i, cells ((tail + (i + 1)) % size) = cells (((tail + 1) % size + i) % size) := by
    intro i
    rw [Nat.mod_add_mod, Nat.add_right_comm, Nat.add_assoc]
  simp only [contents, List.range_succ_eq_map, List.map_cons, List.map_map, Nat.add_zero,
    Nat.mod_eq_of_lt ht]
  exact congrArg _ (List.map_congr_left fun i _ => hrest i)

theorem contents_update (hc : count < size) (a : α) :
    contents size (Function.update cells ((tail + count) % size) a) tail (count + 1) =
      contents size cells tail count ++ [a] := by
  have hother : ∀ i ∈ List.range count, (tail + i) % size ≠ (tail + count) % size := by
    intro i hi he
    have hi := List.mem_range.mp hi
    have h₁ := Nat.mod_add_div (tail + i) size
    have h₂ := Nat.mod_add_div (tail + count) size
    -- both places lie within one round of the ring
    have h₃ : (tail + count) / size ≤ (tail + i) / size + 1 := by
      have := Nat.div_le_div_right (c := size) (show tail + count ≤ tail + i + size by omega)
      rwa [Nat.add_div_right _ (by omega)] at this
    have h₄ : (tail + i) / size ≤ (tail + count) / size := Nat.div_le_div_right (by omega)
    rcases Nat.lt_or_ge ((tail + i) / size) ((tail + count) / size) with h | h
    · have h₅ : (tail + count) / size = (tail + i) / size + 1 := by omega
      rw [h₅, Nat.mul_succ] at h₂
      omega
    · have h₅ : (tail + count) / size = (tail + i) / size := by omega
      rw [h₅] at h₂
      omega
  rw [contents, contents, List.range_succ, List.map_append, List.map_singleton,
    Function.update_self]
  exact congrArg (· ++ [a]) (List.map_congr_left fun i hi =>
    Function.update_of_ne (hother i hi) _ _)

end ContinuumOS.Lib.Ring
