import Mathlib.Logic.Function.Basic
import Mathlib.Data.List.InsertIdx
import Mathlib.Data.List.TakeWhile

/-! # Texts in arrays

A text lies in an array of `size` cells in front of a terminator. Every access
is checked: outside the cells there is no result. The loops that find its end,
open a gap, close a gap and copy it are described by what the array holds
afterwards. -/
namespace ContinuumOS.Lib.Terminated

variable {α : Type}

/-- One cell. -/
def read (size : Nat) (a : Nat → α) (i : Nat) : Option α := if i < size then some (a i) else none

/-- The array with one cell replaced. -/
def write (size : Nat) (a : Nat → α) (i : Nat) (v : α) : Option (Nat → α) :=
  if i < size then some (Function.update a i v) else none

/-- The first terminator among `left` cells from `i` on. -/
def lengthFrom [DecidableEq α] (z : α) (a : Nat → α) : Nat → Nat → Option Nat
  | 0, _ => none
  | left + 1, i => if a i = z then some i else lengthFrom z a left (i + 1)

/-- The cells up to `i` move one up, `count` of them, the last first. -/
def shiftUp (size : Nat) : Nat → Nat → (Nat → α) → Option (Nat → α)
  | 0, _, a => some a
  | count + 1, i, a => do
    let c ← read size a (i - 1)
    let a ← write size a i c
    shiftUp size count (i - 1) a

/-- The cells behind `i` move one down, `count` of them, the first first. -/
def shiftDown (size : Nat) : Nat → Nat → (Nat → α) → Option (Nat → α)
  | 0, _, a => some a
  | count + 1, i, a => do
    let c ← read size a (i + 1)
    let a ← write size a i c
    shiftDown size count (i + 1) a

/-- `count` cells from `src` on go to `dst`, the first first. -/
def copyForward (size : Nat) : Nat → Nat → Nat → (Nat → α) → Option (Nat → α)
  | 0, _, _, a => some a
  | count + 1, dst, src, a => do
    let c ← read size a src
    let a ← write size a dst c
    copyForward size count (dst + 1) (src + 1) a

/-- `count` cells from `src` on go to `dst`, the last first. -/
def copyBackward (size : Nat) : Nat → Nat → Nat → (Nat → α) → Option (Nat → α)
  | 0, _, _, a => some a
  | count + 1, dst, src, a => do
    let c ← read size a (src + count)
    let a ← write size a (dst + count) c
    copyBackward size count dst src a

/-- Cells move inside the array, none of them overwritten before it is read. -/
def move (size : Nat) (a : Nat → α) (dst src count : Nat) : Option (Nat → α) :=
  if dst < src then copyForward size count dst src a else copyBackward size count dst src a

/-- The array after a move. -/
def moved (a : Nat → α) (dst src count : Nat) : Nat → α := fun j =>
  if dst ≤ j ∧ j < dst + count then a (src + (j - dst)) else a j

/-- The `count` cells of `b` from `k` on, copied to `i`. -/
def blit (size : Nat) (a : Nat → α) (i : Nat) (b : Nat → α) (k count : Nat) : Option (Nat → α) :=
  if i + count ≤ size ∧ k + count ≤ size then
    some fun j => if i ≤ j ∧ j < i + count then b (k + (j - i)) else a j
  else none

/-- The text of `b` copied over the cells, which are filled up with terminators. -/
def copy [DecidableEq α] (z : α) (size : Nat) (a b : Nat → α) : Nat → α := fun i =>
  if i < size then if (List.range (i + 1)).all fun j => b j ≠ z then b i else z else a i

/-- The array holds `s`. -/
structure Holds (z : α) (size : Nat) (a : Nat → α) (s : List α) : Prop where
  length_lt : s.length < size
  get : ∀ i, i < s.length → s[i]? = some (a i)
  not_mem : z ∉ s
  stop : a s.length = z

section

variable {z : α} {size : Nat} {a b : Nat → α} {s t : List α}

theorem read_eq {i : Nat} (h : i < size) : read size a i = some (a i) := if_pos h

theorem write_eq {i : Nat} {v : α} (h : i < size) :
    write size a i v = some (Function.update a i v) := if_pos h

/-! ## What an array holds -/

theorem Holds.ne (h : Holds z size a s) {i : Nat} (hi : i < s.length) : a i ≠ z := fun he =>
  h.not_mem (he ▸ List.mem_of_getElem? (h.get i hi))

theorem holds_takeWhile [DecidableEq α] (hlt : s.length < size)
    (hget : ∀ i, i < s.length → s[i]? = some (a i)) (hz : a s.length = z) :
    Holds z size a (s.takeWhile (· ≠ z)) := by
  generalize hn : s.findIdx (fun c => !decide (c ≠ z)) = n
  have htake : s.takeWhile (· ≠ z) = s.take n := by rw [List.takeWhile_eq_take_findIdx_not, hn]
  have hle : n ≤ s.length := by
    rw [← hn]
    exact List.findIdx_le_length
  have hlen : (s.takeWhile (· ≠ z)).length = n := by rw [htake, List.length_take_of_le hle]
  refine ⟨by omega, fun i hi => ?_, fun hm => ?_, ?_⟩
  · rw [hlen] at hi
    rw [htake, List.getElem?_take_of_lt hi, hget i (by omega)]
  · have hne : z ≠ z := by simpa only [decide_eq_true_eq] using List.mem_takeWhile_imp hm
    exact hne rfl
  · rw [hlen]
    rcases Nat.lt_or_eq_of_le hle with hlt | heq
    · have hstop : (!decide (s[n] ≠ z)) = true := by
        subst hn
        exact List.findIdx_getElem (p := fun c => !decide (c ≠ z))
      have hz' : s[n] = z := by
        rwa [Bool.not_eq_true', decide_eq_false_iff_not, not_not] at hstop
      have hsome := hget n hlt
      rw [List.getElem?_eq_getElem hlt, hz'] at hsome
      exact (Option.some.inj hsome).symm
    · rw [heq, hz]

theorem Holds.nil (hs : 0 < size) (hz : a 0 = z) : Holds z size a [] :=
  ⟨hs, fun _ hi => absurd hi (Nat.not_lt_zero _), List.not_mem_nil, hz⟩

theorem lengthFrom_eq [DecidableEq α] {n : Nat} (hz : a n = z) : ∀ (left i : Nat), i ≤ n →
    n < i + left → (∀ j, i ≤ j → j < n → a j ≠ z) → lengthFrom z a left i = some n
  | 0, i, h₁, h₂, _ => absurd h₁ (by omega)
  | left + 1, i, h₁, h₂, hne => by
    rw [lengthFrom]
    by_cases he : i = n
    · rw [he, if_pos hz]
    · rw [if_neg (hne i (Nat.le_refl i) (by omega))]
      exact lengthFrom_eq hz left (i + 1) (by omega) (by omega) fun j hj => hne j (by omega)

theorem Holds.lengthFrom [DecidableEq α] (h : Holds z size a s) :
    lengthFrom z a size 0 = some s.length :=
  lengthFrom_eq h.stop size 0 (Nat.zero_le _) (by
    have := h.length_lt
    omega) fun _ _ hj => h.ne hj

theorem Holds.unique [DecidableEq α] (h : Holds z size a s) (h' : Holds z size a t) : s = t := by
  have hlen : s.length = t.length := Option.some.inj (h.lengthFrom.symm.trans h'.lengthFrom)
  refine List.ext_getElem? fun i => ?_
  by_cases hi : i < s.length
  · rw [h.get i hi, h'.get i (by omega)]
  · rw [List.getElem?_eq_none (by omega), List.getElem?_eq_none (by omega)]

/-! ## Moving cells -/

theorem shiftUp_eq : ∀ (count i : Nat) (a : Nat → α), count ≤ i → i < size →
    shiftUp size count i a = some fun j => if i < j + count ∧ j ≤ i then a (j - 1) else a j
  | 0, i, a, _, _ => by
    rw [shiftUp]
    congr
    funext j
    rw [if_neg (by omega)]
  | count + 1, i, a, hc, hi => by
    rw [shiftUp, read_eq (by omega), Option.bind_eq_bind, Option.bind_some, write_eq hi,
      Option.bind_eq_bind, Option.bind_some, shiftUp_eq count (i - 1) _ (by omega) (by omega)]
    congr
    funext j
    by_cases hj : j = i
    · rw [hj, if_neg (by omega), if_pos (by omega), Function.update_self]
    · by_cases hin : i < j + (count + 1) ∧ j ≤ i
      · rw [if_pos (by omega), if_pos hin, Function.update_of_ne (by omega)]
      · rw [if_neg (by omega), if_neg hin, Function.update_of_ne hj]

theorem shiftDown_eq : ∀ (count i : Nat) (a : Nat → α), i + count < size →
    shiftDown size count i a = some fun j => if i ≤ j ∧ j < i + count then a (j + 1) else a j
  | 0, i, a, _ => by
    rw [shiftDown]
    congr
    funext j
    rw [if_neg (by omega)]
  | count + 1, i, a, hi => by
    rw [shiftDown, read_eq (by omega), Option.bind_eq_bind, Option.bind_some, write_eq (by omega),
      Option.bind_eq_bind, Option.bind_some, shiftDown_eq count (i + 1) _ (by omega)]
    congr
    funext j
    by_cases hj : j = i
    · rw [hj, if_neg (by omega), if_pos (by omega), Function.update_self]
    · by_cases hin : i ≤ j ∧ j < i + (count + 1)
      · rw [if_pos (by omega), if_pos hin, Function.update_of_ne (by omega)]
      · rw [if_neg (by omega), if_neg hin, Function.update_of_ne hj]

theorem copyForward_eq : ∀ (count dst src : Nat) (a : Nat → α), dst ≤ src → src + count ≤ size →
    copyForward size count dst src a = some (moved a dst src count)
  | 0, dst, src, a, _, _ => by
    rw [copyForward]
    refine congrArg some (funext fun j => ?_)
    rw [moved, if_neg (by omega)]
  | count + 1, dst, src, a, hle, hs => by
    rw [copyForward, read_eq (by omega), Option.bind_eq_bind, Option.bind_some,
      write_eq (by omega), Option.bind_eq_bind, Option.bind_some,
      copyForward_eq count (dst + 1) (src + 1) _ (by omega) (by omega)]
    refine congrArg some (funext fun j => ?_)
    rw [moved, moved]
    by_cases hj : j = dst
    · rw [hj, if_neg (by omega), if_pos (by omega), Function.update_self, Nat.sub_self,
        Nat.add_zero]
    · by_cases hin : dst ≤ j ∧ j < dst + (count + 1)
      · rw [if_pos (by omega), if_pos hin, Function.update_of_ne (by omega),
          show src + 1 + (j - (dst + 1)) = src + (j - dst) by omega]
      · rw [if_neg (by omega), if_neg hin, Function.update_of_ne hj]

theorem copyBackward_eq : ∀ (count dst src : Nat) (a : Nat → α), src ≤ dst → dst + count ≤ size →
    copyBackward size count dst src a = some (moved a dst src count)
  | 0, dst, src, a, _, _ => by
    rw [copyBackward]
    refine congrArg some (funext fun j => ?_)
    rw [moved, if_neg (by omega)]
  | count + 1, dst, src, a, hle, hd => by
    rw [copyBackward, read_eq (by omega), Option.bind_eq_bind, Option.bind_some,
      write_eq (by omega), Option.bind_eq_bind, Option.bind_some,
      copyBackward_eq count dst src _ hle (by omega)]
    refine congrArg some (funext fun j => ?_)
    rw [moved, moved]
    by_cases hj : j = dst + count
    · rw [hj, if_neg (by omega), if_pos (by omega), Function.update_self, Nat.add_sub_cancel_left]
    · by_cases hin : dst ≤ j ∧ j < dst + (count + 1)
      · rw [if_pos (by omega), if_pos hin, Function.update_of_ne (by omega)]
      · rw [if_neg (by omega), if_neg hin, Function.update_of_ne hj]

theorem move_eq {dst src count : Nat} (hd : dst + count ≤ size) (hs : src + count ≤ size)
    (a : Nat → α) : move size a dst src count = some (moved a dst src count) := by
  rw [move]
  by_cases h : dst < src
  · rw [if_pos h, copyForward_eq _ _ _ _ (Nat.le_of_lt h) hs]
  · rw [if_neg h, copyBackward_eq _ _ _ _ (Nat.le_of_not_lt h) hd]

theorem Holds.congr (h : Holds z size a s) (hb : ∀ i, i ≤ s.length → b i = a i) :
    Holds z size b s :=
  ⟨h.length_lt, fun i hi => by rw [h.get i hi, hb i (Nat.le_of_lt hi)], h.not_mem,
    by rw [hb _ (Nat.le_refl _), h.stop]⟩

/-- **A character is put in**: the cells behind it move up and the terminator follows them. -/
theorem Holds.insert (h : Holds z size a s) {i : Nat} (hi : i ≤ s.length)
    (hroom : s.length + 1 < size) {c : α} (hc : c ≠ z) :
    ∃ b, shiftUp size (s.length - i) s.length a = some b ∧
      Holds z size (Function.update (Function.update b i c) (s.length + 1) z)
        (s.insertIdx i c) := by
  refine ⟨_, shiftUp_eq _ _ _ (by omega) (by omega), ?_⟩
  have hlen : (s.insertIdx i c).length = s.length + 1 := List.length_insertIdx_of_le_length hi c
  refine ⟨by rw [hlen]; exact hroom, fun j hj => ?_, fun hm => ?_, ?_⟩
  · rw [hlen] at hj
    rw [Function.update_of_ne (by omega), List.getElem?_insertIdx]
    rcases Nat.lt_trichotomy j i with hlt | heq | hgt
    · rw [if_pos hlt, Function.update_of_ne (by omega), if_neg (by omega), h.get j (by omega)]
    · rw [if_neg (by omega), if_pos heq, if_pos (by omega), heq, Function.update_self]
    · rw [if_neg (by omega), if_neg (by omega), Function.update_of_ne (by omega), if_pos (by omega),
        h.get (j - 1) (by omega)]
  · rcases (List.mem_insertIdx hi).mp hm with he | hm
    · exact hc he.symm
    · exact h.not_mem hm
  · rw [hlen, Function.update_self]

/-- **A character is taken out**: the cells behind it and the terminator move down. -/
theorem Holds.erase (h : Holds z size a s) {i : Nat} (hi : i < s.length) :
    ∃ b, shiftDown size (s.length - i) i a = some b ∧ Holds z size b (s.eraseIdx i) := by
  have hlt := h.length_lt
  refine ⟨_, shiftDown_eq _ _ _ (by omega), ?_⟩
  have hlen : (s.eraseIdx i).length = s.length - 1 := List.length_eraseIdx_of_lt hi
  refine ⟨by omega, fun j hj => ?_, fun hm => h.not_mem (List.mem_of_mem_eraseIdx hm), ?_⟩
  · rw [hlen] at hj
    by_cases hji : j < i
    · rw [List.getElem?_eraseIdx_of_lt hji, if_neg (by omega), h.get j (by omega)]
    · rw [List.getElem?_eraseIdx_of_ge (by omega), if_pos (by omega), h.get (j + 1) (by omega)]
  · rw [hlen, if_pos (by omega), show s.length - 1 + 1 = s.length by omega, h.stop]

theorem Holds.moveInsert (h : Holds z size a s) {i : Nat} (hi : i ≤ s.length)
    (hroom : s.length + 1 < size) {c : α} (hc : c ≠ z) :
    Holds z size (Function.update (moved a (i + 1) i (s.length - i + 1)) i c)
      (s.insertIdx i c) := by
  have hlen : (s.insertIdx i c).length = s.length + 1 := List.length_insertIdx_of_le_length hi c
  obtain ⟨b, hb, hh⟩ := h.insert hi hroom hc
  rw [shiftUp_eq _ _ _ (by omega) (by omega), Option.some_inj] at hb
  refine hh.congr fun j hj => ?_
  rw [hlen] at hj
  subst hb
  by_cases hji : j = i
  · rw [hji, Function.update_self, Function.update_of_ne (by omega), Function.update_self]
  rw [Function.update_of_ne hji, moved]
  by_cases hlast : j = s.length + 1
  · rw [hlast, Function.update_self, if_pos (by omega), show i + (s.length + 1 - (i + 1)) =
      s.length by omega, h.stop]
  rw [Function.update_of_ne hlast, Function.update_of_ne hji]
  by_cases hin : i < j
  · rw [if_pos (by omega), if_pos (by omega), show i + (j - (i + 1)) = j - 1 by omega]
  · rw [if_neg (by omega), if_neg (by omega)]

theorem Holds.moveErase (h : Holds z size a s) {i : Nat} (hi : i < s.length) :
    Holds z size (moved a i (i + 1) (s.length - (i + 1) + 1)) (s.eraseIdx i) := by
  have hlt := h.length_lt
  obtain ⟨b, hb, hh⟩ := h.erase hi
  rw [shiftDown_eq _ _ _ (by omega), Option.some_inj] at hb
  subst hb
  refine hh.congr fun j hj => ?_
  rw [moved]
  by_cases hin : i ≤ j ∧ j < i + (s.length - i)
  · rw [if_pos (by omega), if_pos hin, show i + 1 + (j - i) = j + 1 by omega]
  · rw [if_neg (by omega), if_neg hin]

/-! ## Copying and cutting -/

theorem Holds.copy [DecidableEq α] (h : Holds z size b s) : Holds z size (copy z size a b) s := by
  have hlt := h.length_lt
  refine ⟨hlt, fun i hi => ?_, h.not_mem, ?_⟩
  · rw [Terminated.copy, if_pos (by omega), if_pos, h.get i hi]
    refine List.all_eq_true.mpr fun j hj => decide_eq_true (h.ne ?_)
    have := List.mem_range.mp hj
    omega
  · rw [Terminated.copy, if_pos hlt, if_neg]
    intro hall
    have := List.all_eq_true.mp hall s.length (List.mem_range.mpr (Nat.lt_succ_self _))
    exact of_decide_eq_true this h.stop

theorem Holds.take (h : Holds z size a s) {i : Nat} (hi : i ≤ s.length) :
    Holds z size (Function.update a i z) (s.take i) := by
  have hlt := h.length_lt
  have hlen : (s.take i).length = i := by rw [List.length_take]; omega
  refine ⟨by omega, fun j hj => ?_, fun hm => h.not_mem (List.mem_of_mem_take hm), ?_⟩
  · rw [hlen] at hj
    rw [List.getElem?_take_of_lt hj, h.get j (by omega), Function.update_of_ne (by omega)]
  · rw [hlen, Function.update_self]

theorem Holds.drop (h : Holds z size a s) {i : Nat} (hi : i ≤ s.length) (b : Nat → α) :
    ∃ b', blit size b 0 a i (s.length - i) = some b' ∧
      Holds z size (Function.update b' (s.length - i) z) (s.drop i) := by
  have hlt := h.length_lt
  have hlen : (s.drop i).length = s.length - i := List.length_drop
  refine ⟨_, if_pos ⟨by omega, by omega⟩, by omega, fun j hj => ?_,
    fun hm => h.not_mem (List.mem_of_mem_drop hm), ?_⟩
  · rw [hlen] at hj
    rw [List.getElem?_drop, h.get (i + j) (by omega), Function.update_of_ne (by omega),
      if_pos (by omega), Nat.sub_zero]
  · rw [hlen, Function.update_self]

theorem Holds.append (h : Holds z size a s) (h' : Holds z size b t) {n : Nat} (hn : n ≤ t.length)
    (hroom : s.length + n < size) :
    ∃ a', blit size a s.length b 0 n = some a' ∧
      Holds z size (Function.update a' (s.length + n) z) (s ++ t.take n) := by
  have hlt := h'.length_lt
  have hlen : (s ++ t.take n).length = s.length + n := by
    rw [List.length_append, List.length_take]
    omega
  refine ⟨_, if_pos ⟨by omega, by omega⟩, by omega, fun j hj => ?_, fun hm => ?_, ?_⟩
  · rw [hlen] at hj
    rw [Function.update_of_ne (by omega)]
    by_cases hj' : j < s.length
    · rw [List.getElem?_append_left hj', h.get j hj', if_neg (by omega)]
    · rw [List.getElem?_append_right (by omega), List.getElem?_take_of_lt (by omega),
        h'.get _ (by omega), if_pos (by omega), Nat.zero_add]
  · rcases List.mem_append.mp hm with hm | hm
    · exact h.not_mem hm
    · exact h'.not_mem (List.mem_of_mem_take hm)
  · rw [hlen, Function.update_self]

end

end ContinuumOS.Lib.Terminated
