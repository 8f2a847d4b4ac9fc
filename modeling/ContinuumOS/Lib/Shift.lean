import Mathlib.Data.List.GetD
import Mathlib.Data.List.Nodup

/-! # A list at the front of an array

An array holds a list in its first places, and a counter says how many they
are. Appending stores behind the last of them; erasing moves the ones behind
the erased place down by one, in a loop from left to right. `find` is the
linear search for an element. -/
namespace ContinuumOS.Lib.Shift

variable {α : Type}

/-- `xs[j] = xs[j + 1]` for `j` from `i` on, below `last`. -/
def shiftDown (d : α) (xs : List α) (i last : Nat) : List α :=
  (List.range' i (last - i)).foldl (fun l j => l.set j (l.getD (j + 1) d)) xs

/-- The first of the places below `count` that holds `x`. -/
def find [BEq α] (d : α) (xs : List α) (count : Nat) (x : α) : Option Nat :=
  (List.range count).find? fun i => xs.getD i d == x

/-! ## The shift -/

theorem length_shift (d : α) (js : List Nat) : ∀ xs : List α,
    (js.foldl (fun l j => l.set j (l.getD (j + 1) d)) xs).length = xs.length := by
  induction js with
  | nil => exact fun _ => rfl
  | cons j js ih =>
    intro xs
    rw [List.foldl_cons, ih, List.length_set]

@[simp] theorem length_shiftDown (d : α) (xs : List α) (i last : Nat) :
    (shiftDown d xs i last).length = xs.length := length_shift d _ xs

theorem shift_get (d : α) (xs : List α) (i : Nat) : ∀ k, i + k < xs.length → ∀ j,
    ((List.range' i k).foldl (fun l j => l.set j (l.getD (j + 1) d)) xs)[j]? =
      if i ≤ j ∧ j < i + k then xs[j + 1]? else xs[j]? := by
  intro k
  induction k with
  | zero =>
    intro _ j
    rw [if_neg (by omega)]
    rfl
  | succ k ih =>
    intro hlen j
    have hprev := ih (by omega)
    rw [List.range'_1_concat, List.foldl_append, List.foldl_cons, List.foldl_nil]
    generalize hl : (List.range' i k).foldl (fun l j => l.set j (l.getD (j + 1) d)) xs = l at hprev
    have hsame : l.length = xs.length := hl ▸ length_shift d _ xs
    -- the place behind the shifted ones is still the old one
    have hnext : l.getD (i + k + 1) d = xs[i + k + 1] := by
      have hat := hprev (i + k + 1)
      rw [if_neg (by omega)] at hat
      rw [List.getD_eq_getElem?_getD, hat, List.getElem?_eq_getElem (by omega), Option.getD_some]
    rw [List.getElem?_set, hnext]
    by_cases hj : i + k = j
    · rw [if_pos hj, if_pos (by omega), if_pos (by omega), ← hj,
        List.getElem?_eq_getElem (by omega)]
    · rw [if_neg hj, hprev j]
      by_cases hrange : i ≤ j ∧ j < i + k
      · rw [if_pos hrange, if_pos (by omega)]
      · rw [if_neg hrange, if_neg (by omega)]

/-- **Shifting the places behind `i` down erases the element there.** -/
theorem take_shiftDown (d : α) {xs : List α} {i count : Nat} (hi : i < count)
    (hcount : count ≤ xs.length) :
    (shiftDown d xs i (count - 1)).take (count - 1) = (xs.take count).eraseIdx i := by
  refine List.ext_getElem? fun j => ?_
  rw [List.getElem?_take, List.getElem?_eraseIdx, shiftDown,
    shift_get d xs i _ (by omega), List.getElem?_take, List.getElem?_take]
  by_cases hj : j < count - 1
  · rw [if_pos hj]
    by_cases hlt : j < i
    · rw [if_neg (by omega), if_pos hlt, if_pos (by omega)]
    · rw [if_pos (by omega), if_neg hlt, if_pos (by omega)]
  · rw [if_neg hj]
    by_cases hlt : j < i
    · omega
    · rw [if_neg hlt, if_neg (by omega)]

theorem take_set_count {xs : List α} {count : Nat} (hcount : count < xs.length) (x : α) :
    (xs.set count x).take (count + 1) = xs.take count ++ [x] := by
  rw [List.take_add_one, List.take_set_of_le (Nat.le_refl count), List.getElem?_set_self hcount]
  rfl

theorem getD_of_take (d : α) {xs l : List α} {x : α} (h : xs.take (l.length + 1) = l ++ [x]) :
    xs.getD l.length d = x := by
  have hx : (xs.take (l.length + 1))[l.length]? = some x := by
    rw [h, List.getElem?_concat_length]
  rw [List.getElem?_take, if_pos (Nat.lt_succ_self _)] at hx
  rw [List.getD_eq_getElem?_getD, hx, Option.getD_some]

theorem filter_eraseP {p f : α → Bool} (h : ∀ x, p x = true → f x = false) :
    ∀ l : List α, (l.eraseP p).filter f = l.filter f
  | [] => rfl
  | x :: l => by
    by_cases hp : p x = true
    · rw [List.eraseP_cons_of_pos hp, List.filter_cons_of_neg (Bool.eq_false_iff.mp (h x hp))]
    · rw [List.eraseP_cons_of_neg hp, List.filter_cons, List.filter_cons, filter_eraseP h l]

/-! ## The search -/

theorem find_places (d : α) (p : α → Bool) {xs : List α} {count : Nat}
    (hcount : count ≤ xs.length) :
    (List.range count).find? (fun i => p (xs.getD i d)) = (xs.take count).findIdx? p := by
  have hget : ∀ {i}, i < count → ∃ hi : i < (xs.take count).length,
      (xs.take count)[i] = xs.getD i d := by
    intro i hi
    refine ⟨by rw [List.length_take]; omega, ?_⟩
    rw [List.getElem_take, List.getD_eq_getElem _ _ (by omega)]
  refine Option.ext fun i => ?_
  rw [List.find?_range_eq_some, List.findIdx?_eq_some_iff_getElem, List.mem_range]
  constructor
  · rintro ⟨hp, hi, hbefore⟩
    obtain ⟨hlt, hx⟩ := hget hi
    refine ⟨hlt, by rw [hx]; exact hp, fun j hj => ?_⟩
    obtain ⟨hlt', hx'⟩ := hget (Nat.lt_trans hj hi)
    rw [hx']
    exact Bool.eq_false_iff.mp (Bool.not_eq_true' _ |>.mp (hbefore j hj))
  · rintro ⟨hlt, hp, hbefore⟩
    have hi : i < count := Nat.lt_of_lt_of_le hlt (List.length_take_le _ _)
    obtain ⟨_, hx⟩ := hget hi
    refine ⟨by rw [← hx]; exact hp, hi, fun j hj => ?_⟩
    obtain ⟨_, hx'⟩ := hget (Nat.lt_trans hj hi)
    rw [← hx', Bool.not_eq_true']
    exact Bool.eq_false_iff.mpr (hbefore j hj)

variable [BEq α] [LawfulBEq α] {d x : α} {xs : List α} {count i : Nat}

theorem find_getElem (hcount : count ≤ xs.length) (h : find d xs count x = some i) :
    ∃ hi : i < (xs.take count).length, (xs.take count)[i] = x := by
  have hx : xs.getD i d = x := eq_of_beq (List.find?_some (p := fun i => xs.getD i d == x) h)
  have hi : i < count := List.mem_range.mp (List.mem_of_find?_eq_some h)
  refine ⟨by rw [List.length_take]; omega, ?_⟩
  rw [List.getD_eq_getElem _ _ (by omega)] at hx
  rwa [List.getElem_take]

theorem find_eq_none (hcount : count ≤ xs.length) :
    find d xs count x = none ↔ x ∉ xs.take count := by
  rw [find, List.find?_eq_none]
  constructor
  · intro h hx
    obtain ⟨i, hi, rfl⟩ := List.mem_iff_getElem.mp hx
    rw [List.length_take] at hi
    refine h i (List.mem_range.mpr (by omega)) ?_
    rw [List.getD_eq_getElem _ _ (by omega), List.getElem_take, beq_self_eq_true]
  · intro h i hi heq
    have hlt := List.mem_range.mp hi
    rw [List.getD_eq_getElem _ _ (by omega)] at heq
    refine h ?_
    rw [← eq_of_beq heq]
    exact List.mem_take_iff_getElem.mpr ⟨i, by omega, rfl⟩

/-- **Of a list without repetitions, the shift from where an element is found
on leaves the others.** -/
theorem take_shiftDown_find (hcount : count ≤ xs.length) (hnodup : (xs.take count).Nodup)
    (h : find d xs count x = some i) :
    (shiftDown d xs i (count - 1)).take (count - 1) = (xs.take count).erase x := by
  obtain ⟨hi, hx⟩ := find_getElem hcount h
  have hlt : i < count :=
    Nat.lt_of_lt_of_le hi (List.length_take_le _ _)
  rw [take_shiftDown d hlt hcount, ← hx, hnodup.erase_getElem i hi]

end ContinuumOS.Lib.Shift
